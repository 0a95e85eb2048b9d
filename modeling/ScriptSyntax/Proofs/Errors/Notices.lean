import ScriptSyntax.Proofs.Cursor.Session
import ScriptSyntax.Proofs.Errors.Grammar
/-! # Notices of errors

What a reading tells of, with the places of the tokens that are told of, and in which order notices
may come. Outcomes have notices if their errors are those of a row of notices in order.
-/

namespace ScriptSyntax

variable {α β : Type}

/-! ## Notices -/

/-- That there is an error: where its token stands, what is wrong, and whether a declaration is
dropped for it. -/
structure Notice where
  place : Nat
  cause : SyntaxCause
  drops : Bool
deriving DecidableEq, Repr

namespace Notice

variable {row : List Token} {start middle stop place count : Nat} {notices notices' : List Notice}

/-- The error that a notice is about, if the row has the place. -/
def error (row : List Token) (n : Notice) : Option SyntaxError :=
  row[n.place]?.map fun t => ⟨.ofToken t, n.cause⟩

/-- The same with a mark on it if a declaration is dropped for it. -/
def marked (row : List Token) (mark : SyntaxError → SyntaxError) (n : Notice) :
    Option SyntaxError :=
  (n.error row).map fun e => if n.drops then mark e else e

@[simp] theorem marked_id (row : List Token) (n : Notice) : n.marked row id = n.error row := by
  simp [marked]

theorem marked_of_error {mark : SyntaxError → SyntaxError} {n : Notice} {e : SyntaxError}
    (h : n.error row = some e) : n.marked row mark = some (if n.drops then mark e else e) := by
  rw [marked, h, Option.map_some]

/-- Whether an error is told of only when what is behind its token was read. -/
def IsLate (n : Notice) : Prop := n.cause.message = "Invalid assignment target."

theorem isLate_iff {n : Notice} : n.IsLate ↔ n.cause = .badAssignmentTarget := by
  unfold IsLate
  cases n.cause <;> decide

/-- Whether a declaration is dropped for an error that is not at the end of the input. -/
def DropsInside (row : List Token) (n : Notice) : Prop :=
  n.drops = true ∧ ∃ t, row[n.place]? = some t ∧ t.kind ≠ .endOfInput

theorem not_dropsInside {n : Notice} (h : n.drops = false) : ¬ n.DropsInside row :=
  fun hinside => by simpa [h] using hinside.1

/-- What has to hold of a notice and a later one. -/
structure Before (row : List Token) (n later : Notice) : Prop where
  le : ¬ n.IsLate → ¬ later.IsLate → n.place ≤ later.place
  lt : n.DropsInside row → n.place < later.place

/-- What has to hold of each notice of what was read between two places. -/
structure Within (row : List Token) (start stop : Nat) (n : Notice) : Prop where
  le_place : start ≤ n.place
  place_le : n.place ≤ stop
  target : n.IsLate → ∃ t, row[n.place]? = some t ∧ t.kind = .equal
  lt_stop : n.DropsInside row → n.place < stop

/-- Notices in the order in which they are told of. -/
structure InOrder (row : List Token) (start stop : Nat) (notices : List Notice) : Prop where
  sorted : notices.Pairwise (·.Before row)
  within : ∀ n ∈ notices, n.Within row start stop

namespace InOrder

theorem nil : InOrder row start stop [] := ⟨.nil, by simp⟩

theorem mono (h : InOrder row middle stop notices) (hle : start ≤ middle) :
    InOrder row start stop notices where
  sorted := h.sorted
  within n hn := { h.within n hn with le_place := Nat.le_trans hle (h.within n hn).le_place }

theorem append (h : InOrder row start middle notices) (h' : InOrder row middle stop notices')
    (hstart : start ≤ middle) (hstop : middle ≤ stop) :
    InOrder row start stop (notices ++ notices') where
  sorted := by
    refine List.pairwise_append.2 ⟨h.sorted, h'.sorted, fun n hn m hm => ?_⟩
    have hn := h.within n hn
    have hm := (h'.within m hm).le_place
    exact ⟨fun _ _ => Nat.le_trans hn.place_le hm,
      fun hdrops => Nat.lt_of_lt_of_le (hn.lt_stop hdrops) hm⟩
  within n hn := by
    rcases List.mem_append.1 hn with hn | hn
    · have hn := h.within n hn
      exact { hn with
        place_le := Nat.le_trans hn.place_le hstop
        lt_stop := fun hdrops => Nat.lt_of_lt_of_le (hn.lt_stop hdrops) hstop }
    · exact (h'.mono hstart).within n hn

theorem here {cause : SyntaxCause} (hcause : cause ≠ .badAssignmentTarget) (hstop : place ≤ stop)
    {drops : Bool} (hdrops : DropsInside row ⟨place, cause, drops⟩ → place < stop) :
    InOrder row place stop [⟨place, cause, drops⟩] where
  sorted := List.pairwise_singleton _ _
  within n hn := by
    obtain rfl := List.mem_singleton.1 hn
    exact ⟨Nat.le_refl place, hstop, fun h => absurd (isLate_iff.1 h) hcause, hdrops⟩

theorem concat_target (h : InOrder row (place + 1) stop notices) (hstop : place < stop)
    (hdrops : ∀ n ∈ notices, n.drops = false)
    (htarget : ∃ t, row[place]? = some t ∧ t.kind = .equal) :
    InOrder row place stop (notices ++ [⟨place, .badAssignmentTarget, false⟩]) where
  sorted := by
    refine List.pairwise_append.2 ⟨h.sorted, List.pairwise_singleton _ _, fun n hn m hm => ?_⟩
    obtain rfl := List.mem_singleton.1 hm
    exact ⟨fun _ hm => absurd (isLate_iff.2 rfl) hm,
      fun hinside => absurd hinside (not_dropsInside (hdrops n hn))⟩
  within n hn := by
    rcases List.mem_append.1 hn with hn | hn
    · exact (h.mono (Nat.le_succ place)).within n hn
    · obtain rfl := List.mem_singleton.1 hn
      exact ⟨Nat.le_refl place, Nat.le_of_lt hstop, fun _ => htarget,
        fun hinside => absurd hinside (not_dropsInside rfl)⟩

/-- For one token that does not end the input at most one declaration is dropped. -/
theorem countP_le_one (h : InOrder row start stop notices) {t : Token} (ht : row[place]? = some t)
    (hkind : t.kind ≠ .endOfInput) :
    notices.countP (fun n => n.drops && n.place == place) ≤ 1 := by
  have hsorted := h.sorted
  clear h
  induction notices with
  | nil => exact Nat.zero_le 1
  | cons n notices ih =>
    obtain ⟨hn, hsorted⟩ := List.pairwise_cons.1 hsorted
    rw [List.countP_cons]
    split
    · rename_i hfound
      rw [Bool.and_eq_true, beq_iff_eq] at hfound
      obtain ⟨hdrops, rfl⟩ := hfound
      have hnone : notices.countP (fun m => m.drops && m.place == n.place) = 0 := by
        refine List.countP_eq_zero.2 fun m hm => ?_
        have := (hn m hm).lt ⟨hdrops, t, ht, hkind⟩
        simp
        omega
      omega
    · exact ih hsorted

end InOrder

theorem map_append_eq {about : Notice → Option SyntaxError} {errors errors' : List SyntaxError}
    (h : errors.map some = notices.map about) (h' : errors'.map some = notices'.map about) :
    (errors ++ errors').map some = (notices ++ notices').map about := by
  rw [List.map_append, List.map_append, h, h']

theorem map_concat_eq {about : Notice → Option SyntaxError} {errors : List SyntaxError}
    {e : SyntaxError} {n : Notice} (h : errors.map some = notices.map about)
    (hn : about n = some e) :
    (errors ++ [e]).map some = (notices ++ [n]).map about :=
  map_append_eq h (by rw [List.map_singleton, List.map_singleton, hn])

/-- The first `count` notices are in front of a place or there, the others there or behind it. -/
structure PartedAt (place count : Nat) (notices : List Notice) : Prop where
  front : ∀ n ∈ notices.take count, n.place ≤ place
  behind : ∀ n ∈ notices.drop count, place ≤ n.place

theorem InOrder.partedAt_start (h : InOrder row start stop notices) :
    PartedAt start 0 notices where
  front := by simp
  behind n hn := (h.within n hn).le_place

theorem PartedAt.append (h : PartedAt place count notices')
    (hnotices : InOrder row start middle notices) (hplace : middle ≤ place) :
    PartedAt place (notices.length + count) (notices ++ notices') where
  front n hn := by
    rw [List.take_length_add_append] at hn
    rcases List.mem_append.1 hn with hn | hn
    · exact Nat.le_trans (hnotices.within n hn).place_le hplace
    · exact h.front n hn
  behind n hn := by
    rw [List.drop_length_add_append] at hn
    exact h.behind n hn

end Notice

/-! ## Outcomes -/

namespace Input

variable {input : Input} {ahead rest : List Token}

theorem placeOf_le_placeOf (h : rest <:+ ahead) : input.placeOf ahead ≤ input.placeOf rest :=
  Nat.sub_le_sub_left h.length_le input.row.length

theorem notice_error (h : ahead <:+ input.row) (options : Options) (cause : SyntaxCause)
    (drops : Bool) :
    (Notice.mk (input.placeOf ahead) cause drops).error input.tokens =
      some ⟨(Setting.mk options input.eof.location).site ahead, cause⟩ := by
  unfold Notice.error
  rw [getElem?_placeOf h]
  cases ahead with
  | nil => simp [Site.ofToken, input.ends, Setting.site]
  | cons t ahead => simp [Site.ofToken, input.goes_on t (h.subset List.mem_cons_self), Setting.site]

theorem getElem?_of_cons {t : Token} (h : t :: ahead <:+ input.row) :
    input.tokens[input.placeOf (t :: ahead)]? = some t := getElem?_placeOf h

theorem placeOf_lt_dropStatement (h : ahead <:+ input.row) {t : Token}
    (ht : input.tokens[input.placeOf ahead]? = some t) (hkind : t.kind ≠ .endOfInput) :
    input.placeOf ahead < input.placeOf (dropStatement ahead) := by
  cases ahead with
  | nil =>
    rw [getElem?_placeOf h] at ht
    obtain rfl := Option.some.inj ht
    exact absurd input.ends hkind
  | cons next ahead =>
    have hplace := placeOf_cons h
    have hdropped := length_dropStatement_le next ahead
    unfold placeOf at *
    omega

end Input

/-- Notices for the errors of an outcome, and for those of the outcome where some of them are
marked. An error that stops the reading is at the place where it stopped. -/
structure Outcome.Noted (o o' : Outcome α) (input : Input) (mark : SyntaxError → SyntaxError)
    (ahead : List Token) (notices : List Notice) : Prop where
  errors_eq : o.errors.map some = notices.map (·.error input.tokens)
  marked_eq : o'.errors.map some = notices.map (·.marked input.tokens mark)
  result_eq : o'.result = o.result
  rest_eq : o'.rest = o.rest
  inOrder : Notice.InOrder input.tokens (input.placeOf ahead) (input.placeOf o.rest) notices
  stops : ∀ e, o.result = .error e → e.cause ≠ .badAssignmentTarget ∧
    (Notice.mk (input.placeOf o.rest) e.cause true).error input.tokens = some e

theorem Outcome.Noted.eq {o o' : Outcome α} {input : Input} {mark : SyntaxError → SyntaxError}
    {ahead : List Token} {notices : List Notice} (h : o.Noted o' input mark ahead notices) :
    o' = ⟨o.result, o'.errors, o.rest⟩ := by
  rw [← h.result_eq, ← h.rest_eq]

/-- There are notices for the errors of two outcomes. Unless `dropping`, no declaration is
dropped. -/
def Outcome.Notes (o o' : Outcome α) (input : Input) (dropping : Bool)
    (mark : SyntaxError → SyntaxError) (ahead : List Token) : Prop :=
  ∃ notices, o.Noted o' input mark ahead notices ∧
    (dropping = false → ∀ n ∈ notices, n.drops = false)

section outcome

variable {input : Input} {dropping : Bool} {mark : SyntaxError → SyntaxError}
  {ahead : List Token} {notices notices' : List Notice}

theorem Outcome.Noted.behind {o o' : Outcome β} {errors errors' : List SyntaxError}
    {rest : List Token} (herrors : errors.map some = notices.map (·.error input.tokens))
    (herrors' : errors'.map some = notices.map (·.marked input.tokens mark))
    (hnotices : Notice.InOrder input.tokens (input.placeOf ahead) (input.placeOf rest) notices)
    (ho : o.Noted o' input mark rest notices') (hahead : rest <:+ ahead) (hrest : o.rest <:+ rest) :
    (o.behind errors).Noted (o'.behind errors') input mark ahead (notices ++ notices') where
  errors_eq := Notice.map_append_eq herrors ho.errors_eq
  marked_eq := Notice.map_append_eq herrors' ho.marked_eq
  result_eq := ho.result_eq
  rest_eq := ho.rest_eq
  inOrder := hnotices.append ho.inOrder (Input.placeOf_le_placeOf hahead)
    (Input.placeOf_le_placeOf hrest)
  stops := ho.stops

theorem Outcome.Notes.andThen {o o' : Outcome α} {next next' : α → List Token → Outcome β}
    (ho : o.Notes o' input dropping mark ahead) (hahead : o.rest <:+ ahead)
    (hnext : ∀ a, (next a o.rest).Notes (next' a o.rest) input dropping mark o.rest)
    (hrest : ∀ a, (next a o.rest).rest <:+ o.rest) :
    (o.andThen next).Notes (o'.andThen next') input dropping mark ahead := by
  obtain ⟨notices, hnoted, hdrops⟩ := ho
  rw [hnoted.eq]
  obtain ⟨herrors, hmarked, -, -, hinOrder, hstops⟩ := hnoted
  rcases o with ⟨e | a, errors, rest⟩
  · exact ⟨notices, ⟨herrors, hmarked, rfl, rfl, hinOrder, by simpa using hstops⟩, hdrops⟩
  · obtain ⟨notices', hnoted', hdrops'⟩ := hnext a
    refine ⟨notices ++ notices', hnoted'.behind herrors hmarked hinOrder hahead (hrest a), ?_⟩
    intro hkept n hn
    rcases List.mem_append.1 hn with hn | hn
    · exact hdrops hkept n hn
    · exact hdrops' hkept n hn

theorem Outcome.Notes.cons {o o' : Outcome α} {t : Token}
    (h : o.Notes o' input dropping mark ahead) :
    o.Notes o' input dropping mark (t :: ahead) := by
  obtain ⟨notices, hnoted, hdrops⟩ := h
  have hinOrder := hnoted.inOrder.mono (Input.placeOf_le_placeOf (List.suffix_cons t ahead))
  exact ⟨notices, { hnoted with inOrder := hinOrder }, hdrops⟩

theorem Outcome.Noted.ok {a : α} {errors errors' : List SyntaxError} {rest : List Token}
    (h : (Outcome.mk (.ok a) errors rest).Noted ⟨.ok a, errors', rest⟩ input mark ahead notices)
    (b : β) :
    (Outcome.mk (.ok b) errors rest).Noted ⟨.ok b, errors', rest⟩ input mark ahead notices :=
  ⟨h.errors_eq, h.marked_eq, rfl, rfl, h.inOrder, by simp⟩

theorem Outcome.Noted.concat_target {a : α} {errors : List SyntaxError} {rest : List Token}
    {t : Token}
    (h : (Outcome.mk (.ok a) errors rest).Noted ⟨.ok a, errors, rest⟩ input id ahead notices)
    (hahead : t :: ahead <:+ input.row) (hkind : t.kind = .equal)
    (hdrops : ∀ n ∈ notices, n.drops = false) (hrest : rest <:+ ahead) (b : β) :
    let sign : Notice := ⟨input.placeOf (t :: ahead), .badAssignmentTarget, false⟩
    let o : Outcome β := ⟨.ok b, errors ++ [⟨.token t, .badAssignmentTarget⟩], rest⟩
    o.Noted o input id (t :: ahead) (notices ++ [sign]) := by
  intro sign o
  have hsign : sign.error input.tokens = some ⟨.token t, .badAssignmentTarget⟩ :=
    Input.notice_error hahead {} .badAssignmentTarget false
  have herrors : o.errors.map some = (notices ++ [sign]).map (·.error input.tokens) :=
    Notice.map_concat_eq h.errors_eq hsign
  have hplace := Input.placeOf_cons hahead
  have hstop : input.placeOf ahead ≤ input.placeOf rest := Input.placeOf_le_placeOf hrest
  have hinOrder : Notice.InOrder input.tokens (input.placeOf (t :: ahead) + 1)
      (input.placeOf rest) notices := hplace ▸ h.inOrder
  refine ⟨herrors, by simpa using herrors, rfl, rfl, ?_, by simp [o]⟩
  exact hinOrder.concat_target (by omega) hdrops ⟨t, Input.getElem?_of_cons hahead, hkind⟩

/-- The error that drops a declaration is told of where the reading stopped, and what is dropped with
it begins there. -/
theorem Outcome.Noted.dropped {e : SyntaxError} {errors errors' : List SyntaxError}
    {rest : List Token}
    (h : (Outcome.mk (.error e) errors rest : Outcome α).Noted ⟨.error e, errors', rest⟩ input mark
      ahead notices) (hahead : rest <:+ ahead) (hrest : rest <:+ input.row) (b : β) :
    (Outcome.mk (.ok b) (errors ++ [e]) (dropStatement rest)).Noted
      ⟨.ok b, errors' ++ [mark e], dropStatement rest⟩ input mark ahead
      (notices ++ [⟨input.placeOf rest, e.cause, true⟩]) := by
  obtain ⟨hcause, herror⟩ := h.stops e rfl
  dsimp only at herror
  have hstop : input.placeOf rest ≤ input.placeOf (dropStatement rest) :=
    Input.placeOf_le_placeOf (dropStatement_suffix rest)
  refine ⟨Notice.map_concat_eq h.errors_eq herror,
    Notice.map_concat_eq h.marked_eq (Notice.marked_of_error herror), rfl, rfl, ?_, by simp⟩
  refine h.inOrder.append (.here hcause hstop fun hinside => ?_) (Input.placeOf_le_placeOf hahead)
    hstop
  obtain ⟨-, t, ht, hkind⟩ := hinside
  exact Input.placeOf_lt_dropStatement hrest ht hkind

theorem Outcome.Notes.quiet {result : Except SyntaxError α}
    (hstops : ∀ e, result = .error e → e.cause ≠ .badAssignmentTarget ∧
      (Notice.mk (input.placeOf ahead) e.cause true).error input.tokens = some e) :
    (Outcome.mk result [] ahead).Notes ⟨result, [], ahead⟩ input dropping mark ahead :=
  ⟨[], ⟨rfl, rfl, rfl, rfl, .nil, hstops⟩, by simp⟩

theorem Outcome.Notes.next {a : α} {options : Options} {cause : SyntaxCause} {rest : List Token}
    (hcause : cause ≠ .badAssignmentTarget) (hahead : ahead <:+ input.row)
    (hrest : rest <:+ ahead) :
    let e : SyntaxError := ⟨(Setting.mk options input.eof.location).site ahead, cause⟩
    (Outcome.mk (.ok a) [e] rest).Notes ⟨.ok a, [e], rest⟩ input dropping mark ahead := by
  intro e
  have herror := Input.notice_error hahead options cause false
  refine ⟨[⟨input.placeOf ahead, cause, false⟩], ⟨?_, ?_, rfl, rfl, ?_, by simp⟩, by simp⟩
  · rw [List.map_singleton, List.map_singleton, herror]
  · rw [List.map_singleton, List.map_singleton, Notice.marked_of_error herror]
    rfl
  · exact .here hcause (Input.placeOf_le_placeOf hrest)
      fun hinside => absurd hinside (Notice.not_dropsInside rfl)

end outcome

end ScriptSyntax
