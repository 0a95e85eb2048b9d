import ScriptSyntax.Proofs.Completeness.Stmt
import ScriptSyntax.Proofs.Nesting.Landmarks
import ScriptSyntax.Proofs.Nesting.Probing
/-! # What is told of past the limit

The grammar that reads past the limit reads all that is derived, however deep it nests, and tells of
its landmarks in their order.
-/

namespace ScriptSyntax

open ScriptSyntax.Parser
open ScriptSyntax.Expr (tooManyAt)

variable {setting : Setting} {row ts us vs rest : List Token} {limit level place room : Nat}

namespace Landmark

/-- What is told of a landmark in a row: of an argument too many, and of a level that is the first one
behind the limit. -/
def errorIn (row : List Token) (limit : Nat) : Landmark → Option SyntaxError
  | opening level place => if level = limit + 1 then row[place + 1]?.map tooDeepAt else none
  | surplus place => row[place]?.map tooManyAt

def errorsIn (row : List Token) (limit : Nat) (marks : List Landmark) : List SyntaxError :=
  marks.filterMap (errorIn row limit)

theorem errorsIn_append (row : List Token) (limit : Nat) (marks marks' : List Landmark) :
    errorsIn row limit (marks ++ marks') = errorsIn row limit marks ++ errorsIn row limit marks' :=
  List.filterMap_append

theorem takes_probe {α : Type} {p : Parser α} {a : α} {marks : List Landmark}
    (h : p.Takes setting ts rest a (errorsIn row limit marks)) (hat : StandsAt row (place + 1) ts)
    (hne : ts ≠ []) :
    (p.probe limit level).Takes setting ts rest a
      (errorsIn row limit (.opening (level + 1) place :: marks)) := by
  obtain ⟨t, more, rfl⟩ := List.exists_cons_of_ne_nil hne
  have hopening : errorsIn row limit (.opening (level + 1) place :: marks) =
      (if level = limit then [tooDeepAt t] else []) ++ errorsIn row limit marks := by
    by_cases hlevel : level = limit
    · simp [errorsIn, errorIn, hlevel, hat.getElem?]
    · simp [errorsIn, errorIn, hlevel]
  rw [hopening]
  exact h.probe limit level

end Landmark

open Landmark (errorsIn errorsIn_append takes_probe)

namespace Expr

variable {deeper : Deeper} {e : Expr}

/-! ## Arguments -/

/-- Expressions are read as arguments at their places, and their landmarks are told of. -/
def Deeper.ReadsMarked (deeper : Deeper) (setting : Setting) (row : List Token) (limit level : Nat)
    (es : List Expr) : Prop :=
  ∀ e ∈ es, e.Derivable ∧ ∀ place ts rest, e.Writes ts → StandsAt row (place + 1) ts →
    EndsBefore 0 rest → deeper.inside.Takes setting ts rest e
      (errorsIn row limit (.opening (level + 1) place :: e.landmarks (level + 1) (place + 1)))

theorem takes_argument_marked (he : deeper.ReadsMarked setting row limit level [e])
    (hw : e.Writes ts) (hat : StandsAt row (place + 1) ts) (hends : EndsBefore 0 rest)
    (earlier : Array Expr) :
    (argument deeper earlier).Takes setting ts rest (earlier.push e)
      (errorsIn row limit ((if earlier.size = maxArguments then [.surplus (place + 1)] else []) ++
        .opening (level + 1) place :: e.landmarks (level + 1) (place + 1))) := by
  obtain ⟨hderivable, hinside⟩ := he e (by simp)
  obtain ⟨t, more, rfl, -⟩ := hderivable.exists_first hw
  rw [errorsIn_append]
  refine takes_argument_iff.2 ⟨e, _, rfl, ?_, hinside place _ rest hw hat hends⟩
  split
  · simp [errorsIn, Landmark.errorIn, hat.getElem?, tooManyAt, Setting.site]
  · rfl

theorem takes_arguments_behind_marked {es : List Expr}
    (hes : deeper.ReadsMarked setting row limit level (e :: es)) (hw : WritesArguments (e :: es) ts)
    (hat : StandsAt row (place + 1) ts) {closing : Token} (hclosing : closing.kind = .rightParen)
    (earlier : Array Expr) (rest : List Token) :
    (argument deeper earlier >>= restOfArguments deeper).Takes setting ts (closing :: rest)
      (earlier ++ (e :: es).toArray)
      (errorsIn row limit (landmarksOfArguments level place earlier.size (e :: es))) := by
  have hone : deeper.ReadsMarked setting row limit level [e] := fun e' he' => hes e' (by simp_all)
  induction es generalizing e ts place earlier with
  | nil =>
    cases hw with
    | one hw =>
      have hends : EndsBefore 0 (closing :: rest) :=
        endsBefore_of_holdOf?_eq_none (by rw [hclosing]; rfl) 0
      have hloop : (restOfArguments deeper (earlier.push e)).Takes setting [] (closing :: rest) _ [] :=
        takes_restOfArguments_nil hclosing (earlier.push e)
      have := (takes_argument_marked hone hw hat hends earlier).bind hloop
      unfold landmarksOfArguments landmarksOfArguments
      simpa using this
  | cons e' es ih =>
    cases hw with
    | @more _ _ _ comma ts us hw hcomma hothers =>
      have hends : EndsBefore 0 (comma :: us ++ closing :: rest) :=
        endsBefore_of_holdOf?_eq_none (by rw [hcomma]; rfl) 0
      have hlater := hat.behind
      rw [(hes e (by simp)).1.length_eq hw] at hlater
      have hloop := ih (fun e'' he => hes e'' (by simp_all)) hothers hlater (earlier.push e)
        fun e'' he => hes e'' (by simp_all)
      have := (takes_argument_marked hone hw hat.left hends earlier).bind
        (takes_restOfArguments_cons hcomma hloop)
      rw [← errorsIn_append] at this
      unfold landmarksOfArguments
      simpa using this

theorem takes_arguments_marked {es : List Expr}
    (hes : deeper.ReadsMarked setting row limit level es) (hw : WritesArguments es ts)
    (hat : StandsAt row (place + 1) ts) {closing : Token} (hclosing : closing.kind = .rightParen)
    (rest : List Token) :
    (arguments deeper).Takes setting ts (closing :: rest) es.toArray
      (errorsIn row limit (landmarksOfArguments level place 0 es)) := by
  cases es with
  | nil =>
    cases hw
    exact takes_arguments_iff.2 (.inl ⟨by simp [hclosing], rfl, rfl, rfl⟩)
  | cons e es =>
    have hall := takes_arguments_behind_marked hes hw hat hclosing #[] rest
    rw [Array.empty_append] at hall
    exact takes_arguments_iff.2 (.inr ⟨hw.head?_any (hes e (by simp)).1 _, hall⟩)

/-! ## Expressions -/

theorem Derivable.readsAs_probing (h : e.Derivable) (hw : e.Writes ts) (hat : StandsAt row place ts)
    (hroom : e.nesting ≤ room) (level : Nat) :
    ReadsAs (Deeper.probing limit room level) setting ts e
      (errorsIn row limit (e.landmarks level place)) := by
  induction h using Derivable.byOperation generalizing ts place room level with
  | operation hkind hleft hright hdl _ ihl ihr =>
    obtain ⟨ts, us, rfl, hl, hr⟩ := Precedence.writes_combine_iff.1 hw
    rw [Precedence.nesting_combine, Nat.max_le] at hroom
    rw [landmarks_combine, errorsIn_append, ← hdl.length_eq hl]
    exact (ihl hl hat.left hroom.1 level).combine hkind hleft hright
      (ihr hr hat.behind hroom.2 level)
  | grouping h ih =>
    have hfirst := (Derivable.grouping h).first_of_rank hw (by simp [rank])
    cases hw with
    | grouping hopening hinner hclosing =>
      obtain ⟨room, rfl⟩ := Nat.exists_eq_succ_of_ne_zero (Nat.ne_zero_of_lt hroom)
      have hat := hat.left.tail
      have hread := (ih hinner hat (Nat.le_of_succ_le_succ hroom) (level + 1)).expression
      refine .of_primary hfirst fun rest => takes_primary_iff.2 (.inr (.inr ⟨_, _, hopening, rfl, ?_⟩))
      refine takes_group_iff.2 ⟨_, _, _, rfl, rfl, hclosing, ?_⟩
      refine takes_probe (hread _ ?_) hat (h.ne_nil hinner)
      exact endsBefore_of_holdOf?_eq_none (by rw [hclosing]; rfl) 0
  | unary hkind hrank h ih =>
    cases hw with
    | unary hoperand =>
      obtain ⟨room, rfl⟩ := Nat.exists_eq_succ_of_ne_zero (Nat.ne_zero_of_lt hroom)
      have hread := (ih hoperand hat.tail (Nat.le_of_succ_le_succ hroom) (level + 1)).prefixed hrank
      refine .of_prefixed (fun h8 => by simp [rank] at h8) fun rest hends => ?_
      exact takes_prefixed_iff.2 (.inl ⟨_, _, _, hkind, rfl, rfl,
        takes_probe (hread rest hends) hat.tail (h.ne_nil hoperand)⟩)
  | literal hkind =>
    have hfirst := (Derivable.literal hkind).first_of_rank hw (by simp [rank])
    cases hw
    exact .of_primary hfirst fun rest => takes_primary_iff.2 (.inl ⟨_, hkind, rfl, rfl, rfl⟩)
  | reference hkind =>
    have hfirst := (Derivable.reference hkind).first_of_rank hw (by simp [rank])
    cases hw
    exact .of_primary hfirst fun rest => takes_primary_iff.2 (.inr (.inl ⟨_, hkind, rfl, rfl, rfl⟩))
  | @assignment target value hkind h ih =>
    cases hw with
    | assignment hequals hvalue =>
      obtain ⟨room, rfl⟩ := Nat.exists_eq_succ_of_ne_zero (Nat.ne_zero_of_lt hroom)
      have hat := hat.tail.tail
      have hread := (ih hvalue hat (Nat.le_of_succ_le_succ hroom) (level + 1)).expression
      have hfirst := (Derivable.reference hkind).first_of_rank .reference (by simp [rank])
      have htarget : ReadsAs (Deeper.probing limit (room + 1) level) setting [target]
          (.reference target) [] :=
        .of_primary hfirst fun rest => takes_primary_iff.2 (.inr (.inl ⟨_, hkind, rfl, rfl, rfl⟩))
      exact htarget.assignment hequals fun rest hends =>
        takes_probe (hread rest hends) hat (h.ne_nil hvalue)
  | call hkind hrank h hes ih ihes =>
    cases hw with
    | call hcallee hopening hargs =>
      obtain ⟨hroom, hroomes⟩ := Nat.max_le.1 hroom
      have hfirst := h.first_of_rank hcallee hrank
      rw [List.append_assoc] at hat
      have hargsAt := StandsAt.left hat.behind
      have hread := ih hcallee hat.left hroom level
      simp only [landmarks]
      rw [errorsIn_append, ← h.length_eq hcallee]
      refine hread.call hrank hfirst hopening hkind
        (takes_arguments_marked (fun e he => ?_) hargs hargsAt hkind)
      have hlt := nestingOfArguments_le_iff.1 hroomes e he
      obtain ⟨room, rfl⟩ := Nat.exists_eq_succ_of_ne_zero (Nat.ne_zero_of_lt hlt)
      refine ⟨hes e he, fun place ts rest hw hat hends => ?_⟩
      exact takes_probe ((ihes e he hw hat (Nat.le_of_lt_succ hlt) (level + 1)).expression rest hends)
        hat ((hes e he).ne_nil hw)

theorem Derivable.takes_probing (h : e.Derivable) (hw : e.Writes ts) (hat : StandsAt row place ts)
    (hroom : e.nesting ≤ room) (hends : EndsBefore 0 rest) (limit level : Nat) :
    (probing limit room level).Takes setting ts rest e
      (errorsIn row limit (e.landmarks level place)) :=
  (h.readsAs_probing hw hat hroom level).expression rest hends

end Expr

namespace Stmt

variable {s : Stmt} {ss : List Stmt}

/-! ## Statements in a row -/

/-- Statements are read as declarations at their places, and their landmarks are told of. -/
def ReadsEachMarked (item : Parser (Option Stmt)) (setting : Setting) (row : List Token)
    (limit level : Nat) (ss : List Stmt) : Prop :=
  ∀ s ∈ ss, s.Derivable ∧ ∀ place ts rest, s.Writes ts → StandsAt row place ts →
    s.MayPrecede rest → item.Takes setting ts rest (some s)
      (errorsIn row limit (s.landmarks level place))

theorem takes_all_marked {item : Parser (Option Stmt)} (hadvances : item.Advances) {level : Nat}
    (hss : ReadsEachMarked item setting row limit level ss) (hw : WritesAll ss ts)
    (hat : StandsAt row place ts) {stops : TokenKind → Bool}
    (hstops : ∀ kind, stops kind = true → kind = .rightBrace)
    (hrest : ∀ t ∈ rest.head?, stops t.kind = true) :
    (collectUntil stops item).Takes setting ts rest ss
      (errorsIn row limit (landmarksOfAll level place ss)) := by
  induction ss generalizing ts place with
  | nil =>
    cases hw
    exact (takes_collectUntil_iff hadvances).2 (.inl ⟨hrest, rfl, rfl, rfl⟩)
  | cons s ss ih =>
    cases hw with
    | cons hfirst hothers =>
      obtain ⟨hderivable, hread⟩ := hss s (by simp)
      have hderivables : ∀ s ∈ ss, s.Derivable := fun s hs => (hss s (by simp [hs])).1
      have hlater := hat.right
      rw [hderivable.length_eq hfirst] at hlater
      have hitem := hread place _ _ hfirst hat.left (hothers.mayPrecede hderivables hstops hrest s)
      have hmore := ih (fun s hs => hss s (by simp [hs])) hothers hlater
      unfold landmarksOfAll
      rw [errorsIn_append]
      exact takes_all_cons hadvances hstops hderivable hfirst hitem hmore

/-! ## All statements -/

theorem takes_declaration_probing (h : s.Derivable) (hw : s.Writes ts) (hat : StandsAt row place ts)
    (hroom : s.nesting ≤ room) {level : Nat}
    (hs : s.isVariable = false →
      (statement (Expr.probing limit room level) (Deeper.probing limit room level)).Takes setting ts
        rest s (errorsIn row limit (s.landmarks level place))) :
    (probing limit room level).Takes setting ts rest (some s)
      (errorsIn row limit (s.landmarks level place)) := by
  cases hform : s.isVariable with
  | false => exact takes_declaration_of_statement h hform hw (hs hform)
  | true =>
    cases h with
    | var hname hinitializer =>
      cases hw with
      | varOnly hkeyword hsemicolon => exact takes_varOnly hkeyword hname hsemicolon _
      | varWith hkeyword hequals hvalue hsemicolon =>
        exact takes_varWith hkeyword hname hequals hsemicolon ((hinitializer _ rfl).takes_probing
          hvalue hat.left.tail.tail.tail hroom (endsBefore_of_kind hsemicolon rfl) limit level) _
    | _ => contradiction

theorem Derivable.takes_statement_probing (h : s.Derivable) (hform : s.isVariable = false)
    (hw : s.Writes ts) (hat : StandsAt row place ts) (hroom : s.nesting ≤ room)
    (hrest : s.MayPrecede rest) (level : Nat) :
    (statement (Expr.probing limit room level) (Deeper.probing limit room level)).Takes setting ts
      rest s (errorsIn row limit (s.landmarks level place)) := by
  induction h generalizing ts place room rest level with
  | expression h =>
    cases hw with
    | expression hvalue hsemicolon =>
      exact takes_bareExpression h hvalue hsemicolon (h.takes_probing hvalue hat.left hroom
        (endsBefore_of_kind hsemicolon rfl) limit level) _
  | print h =>
    cases hw with
    | print hkeyword hvalue hsemicolon =>
      exact takes_print hkeyword hsemicolon (h.takes_probing hvalue hat.left.tail hroom
        (endsBefore_of_kind hsemicolon rfl) limit level) _
  | var => contradiction
  | @block ss hss ih =>
    cases hw with
    | block hopening hall hclosing =>
      obtain ⟨room, rfl⟩ := Nat.exists_eq_succ_of_ne_zero (Nat.ne_zero_of_lt hroom)
      have hroom := nestingOfAll_le_iff.1 (Nat.le_of_succ_le_succ hroom)
      have heach : ReadsEachMarked (probing limit room (level + 1)) setting row limit (level + 1) ss :=
        fun s hs => ⟨hss s hs, fun _ _ _ hw hat hrest =>
          takes_declaration_probing (hss s hs) hw hat (hroom s hs) fun hform =>
            ih s hs hform hw hat (hroom s hs) hrest (level + 1)⟩
      refine takes_statement_iff.2 (.inr (.inr (.inl ⟨_, _, hopening, rfl, ?_⟩)))
      refine takes_probe (takes_restOfBlock_iff.2 ⟨_, _, _, rfl, rfl, hclosing, ?_⟩) hat.tail (by simp)
      exact takes_all_marked (advances_probing _ _ _) heach hall hat.left.tail (by simp)
        (by simp [hclosing])
  | ifThen h hb hbranch ih =>
    cases hw with
    | ifThen hkeyword hopening hcondition hclosing hwb =>
      obtain ⟨room, rfl⟩ := Nat.exists_eq_succ_of_ne_zero (Nat.ne_zero_of_lt hroom)
      obtain ⟨hroom, hroomb⟩ := Nat.max_le.1 (Nat.le_of_succ_le_succ hroom)
      have hbranchAt := hat.branch
      rw [h.length_eq hcondition] at hbranchAt
      have hinner := ih hbranch hwb hbranchAt hroomb (fun _ => hrest rfl) (level + 1)
      have hboth := takes_ifThen hopening hclosing (h.takes_probing hcondition hat.left.tail.tail
        hroom (endsBefore_of_kind hclosing rfl) limit (level + 1)) hinner (hrest rfl)
      rw [← errorsIn_append] at hboth
      exact takes_statement_iff.2 (.inl ⟨_, _, hkeyword, rfl, takes_probe hboth hat.tail (by simp)⟩)
  | ifElse h hb hbranch hclosed ha halternative ih ih' =>
    cases hw with
    | ifElse hkeyword hopening hcondition hclosing hwb hkeyword' hwa =>
      obtain ⟨room, rfl⟩ := Nat.exists_eq_succ_of_ne_zero (Nat.ne_zero_of_lt hroom)
      obtain ⟨hroom, hrooms⟩ := Nat.max_le.1 (Nat.le_of_succ_le_succ hroom)
      obtain ⟨hroomb, hrooma⟩ := Nat.max_le.1 hrooms
      have hbranchAt := hat.left.branch
      have halternativeAt := hat.alternative
      rw [h.length_eq hcondition] at hbranchAt halternativeAt
      rw [hb.length_eq hwb] at halternativeAt
      -- The branch leaves no conditional open, so the `else` behind it is not taken for it.
      have hnext (rest : List Token) : MayPrecede _ rest := fun hopen =>
        absurd hopen (Bool.eq_false_iff.1 hclosed)
      have hlast := ih' halternative hwa halternativeAt hrooma hrest (level + 1)
      have hall := takes_ifElse hopening hclosing (h.takes_probing hcondition hat.left.left.tail.tail
        hroom (endsBefore_of_kind hclosing rfl) limit (level + 1))
        (ih hbranch hwb hbranchAt hroomb (hnext _) (level + 1)) hkeyword' hlast
      rw [← errorsIn_append, ← errorsIn_append] at hall
      exact takes_statement_iff.2 (.inl ⟨_, _, hkeyword, rfl, takes_probe hall hat.tail (by simp)⟩)

theorem Derivable.takes_probing (h : s.Derivable) (hw : s.Writes ts) (hat : StandsAt row place ts)
    (hroom : s.nesting ≤ room) (hrest : s.MayPrecede rest) (level : Nat) :
    (probing limit room level).Takes setting ts rest (some s)
      (errorsIn row limit (s.landmarks level place)) :=
  takes_declaration_probing h hw hat hroom fun hform =>
    h.takes_statement_probing hform hw hat hroom hrest level

end Stmt

end ScriptSyntax
