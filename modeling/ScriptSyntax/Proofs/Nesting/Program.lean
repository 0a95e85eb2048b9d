import Mathlib.Data.List.Forall2
import ScriptSyntax.Proofs.Completeness.Program
import ScriptSyntax.Proofs.Confinement
import ScriptSyntax.Proofs.Nesting.Reads
/-! # The limit of nesting is exact

A program that nests too deep is told so at the first level behind the limit, and nothing else is told
of before that but arguments too many.
-/

namespace ScriptSyntax

open ScriptSyntax.Parser
open ScriptSyntax.Expr (tooManyAt holdOf?)

namespace Landmark

variable {α : Type} {marks : List Landmark} {row : List Token} {limit : Nat}

/-- The places of the arguments that are one too many. -/
def surpluses (marks : List Landmark) : List Nat :=
  marks.filterMap fun
    | surplus place => some place
    | opening _ _ => none

theorem mem_surpluses {place : Nat} : place ∈ surpluses marks ↔ surplus place ∈ marks := by
  unfold surpluses
  rw [List.mem_filterMap]
  constructor
  · rintro ⟨m, hm, hplace⟩
    cases m with
    | opening => contradiction
    | surplus =>
      obtain rfl := Option.some.inj hplace
      exact hm
  · intro h
    exact ⟨_, h, rfl⟩

/-- What is told first where a row nests too deep. The error `e` is about the first level behind the
limit, right behind the token at `place` that opens it. In front of it there are only errors about the
arguments too many that start up to there. -/
structure FirstTooDeep (limit : Nat) (marks : List Landmark) (row : List Token) (place : Nat)
    (front : List SyntaxError) (e : SyntaxError) : Prop where
  mem : opening (limit + 1) place ∈ marks
  first : ∀ q, opening (limit + 1) q ∈ marks → place ≤ q
  opens : ∃ t, row[place]? = some t ∧ opensLevel t.kind = true
  site : ∃ next, row[place + 1]? = some next ∧ e.site = .token next
  message : e.cause.message = "Expression nesting is too deep."
  surplus : List.Forall₂ (fun q f => ∃ t, row[q]? = some t ∧ f.site = .token t ∧
    f.cause.message = "Can't have more than 255 arguments.")
      ((surpluses marks).filter (· ≤ place + 1)) front

theorem exists_of_errorIn_eq_tooDeep {m : Landmark} {e : SyntaxError}
    (h : m.errorIn row limit = some e) (he : e.cause = .tooDeep) :
    ∃ place next, m = opening (limit + 1) place ∧ row[place + 1]? = some next ∧
      e = tooDeepAt next := by
  cases m with
  | opening level place =>
    simp only [errorIn] at h
    split at h
    · rename_i hlevel
      obtain ⟨next, hnext, rfl⟩ := Option.map_eq_some_iff.1 h
      exact ⟨place, next, by rw [hlevel], hnext, rfl⟩
    · contradiction
  | surplus place =>
    obtain ⟨t, -, rfl⟩ := Option.map_eq_some_iff.1 h
    contradiction

theorem errorsIn_of_no_level (hstand : ∀ m ∈ marks, m.StandsIn row)
    (hnone : ∀ q, opening (limit + 1) q ∉ marks) :
    List.Forall₂ (fun q f => ∃ t, row[q]? = some t ∧ f = tooManyAt t) (surpluses marks)
      (errorsIn row limit marks) := by
  induction marks with
  | nil => exact .nil
  | cons m marks ih =>
    have hmarks := ih (fun m hm => hstand m (by simp [hm])) fun q hq => hnone q (by simp [hq])
    cases m with
    | opening level place =>
      have hlevel : level ≠ limit + 1 := by
        rintro rfl
        exact hnone place List.mem_cons_self
      simpa [surpluses, errorsIn, errorIn, hlevel] using hmarks
    | surplus place =>
      obtain ⟨t, ht⟩ := hstand _ List.mem_cons_self
      simpa [surpluses, errorsIn, errorIn, ht] using hmarks

theorem surpluses_filter {before behind : List Landmark} {level place start stop : Nat}
    (h : InOrder start stop (before ++ opening level place :: behind)) :
    (surpluses (before ++ opening level place :: behind)).filter (· ≤ place + 1) =
      surpluses before := by
  obtain ⟨-, hbehind, hbefore⟩ := List.pairwise_append.1 h.sorted
  have hbehind := (List.pairwise_cons.1 hbehind).1
  have hfront : ∀ q ∈ surpluses before, q ≤ place + 1 := by
    intro q hq
    have hlt := hbefore _ (mem_surpluses.1 hq) _ List.mem_cons_self
    simp only [order] at hlt
    omega
  have hrest : ∀ q ∈ surpluses behind, ¬ q ≤ place + 1 := by
    intro q hq
    have hlt := hbehind _ (mem_surpluses.1 hq)
    simp only [order] at hlt
    omega
  have hsplit : surpluses (before ++ opening level place :: behind) =
      surpluses before ++ surpluses behind := by
    simp [surpluses]
  rw [hsplit, List.filter_append, List.filter_eq_self.2 (by simpa using hfront),
    List.filter_eq_nil_iff.2 (by simpa using hrest), List.append_nil]

theorem exists_first_level (hstand : ∀ m ∈ marks, m.StandsIn row) {front more : List SyntaxError}
    {e : SyntaxError} (herrors : errorsIn row limit marks = front ++ e :: more)
    (he : e.cause = .tooDeep) (hfront : ∀ f ∈ front, f.cause ≠ .tooDeep) :
    ∃ before place behind next, marks = before ++ opening (limit + 1) place :: behind ∧
      errorsIn row limit before = front ∧ (∀ q, opening (limit + 1) q ∉ before) ∧
      row[place + 1]? = some next ∧ e = tooDeepAt next := by
  obtain ⟨told, others, rfl, rfl, hothers⟩ := List.filterMap_eq_append_iff.1 herrors
  obtain ⟨silent, m, behind, rfl, hsilent, hm, -⟩ := List.filterMap_eq_cons_iff.1 hothers
  obtain ⟨place, next, rfl, hnext, rfl⟩ := exists_of_errorIn_eq_tooDeep hm he
  have htold : errorsIn row limit (told ++ silent) = errorsIn row limit told := by
    have hnothing : errorsIn row limit silent = [] := List.filterMap_eq_nil_iff.2 hsilent
    rw [errorsIn_append, hnothing, List.append_nil]
  refine ⟨told ++ silent, place, behind, next, (List.append_assoc ..).symm, htold, fun q hq => ?_,
    hnext, rfl⟩
  -- Such a level would have been told of.
  obtain ⟨-, t, ht⟩ := hstand (opening (limit + 1) q) (by
    rw [← List.append_assoc]
    exact List.mem_append_left _ hq)
  refine hfront (tooDeepAt t) ?_ rfl
  rw [← errorsIn, ← htold]
  exact List.mem_filterMap.2 ⟨_, hq, by simp [errorIn, ht]⟩

theorem firstTooDeep {start stop : Nat} (hsorted : InOrder start stop marks)
    (hstand : ∀ m ∈ marks, m.StandsIn row) {front more : List SyntaxError} {e : SyntaxError}
    (herrors : errorsIn row limit marks = front ++ e :: more) (he : e.cause = .tooDeep)
    (hfront : ∀ f ∈ front, f.cause ≠ .tooDeep) :
    ∃ place, FirstTooDeep limit marks row place front e := by
  obtain ⟨before, place, behind, next, rfl, rfl, hnone, hnext, rfl⟩ :=
    exists_first_level hstand herrors he hfront
  have hmem : opening (limit + 1) place ∈ before ++ opening (limit + 1) place :: behind := by simp
  refine ⟨place, hmem, fun q hq => ?_, (hstand _ hmem).1, ⟨next, hnext, rfl⟩, rfl, ?_⟩
  · rcases List.mem_append.1 hq with hq | hq
    · exact absurd hq (hnone q)
    · rcases List.mem_cons.1 hq with heq | hq
      · cases heq
        exact Nat.le_refl _
      · have hlt := (List.pairwise_cons.1 (List.pairwise_append.1 hsorted.sorted).2.1).1 _ hq
        simp only [order] at hlt
        omega
  · rw [surpluses_filter hsorted]
    have hall := errorsIn_of_no_level (fun m hm => hstand m (List.mem_append_left _ hm)) hnone
    refine hall.imp ?_
    rintro q f ⟨t, ht, rfl⟩
    exact ⟨t, ht, rfl, rfl⟩

/-- Whoever agrees with telling of the landmarks, up to the first level too deep, tells of that level,
if there is one. -/
theorem exists_firstTooDeep {o o' : Outcome α} (h : o.Agrees o' (· = .tooDeep))
    (htold : o'.told = errorsIn row limit marks) {start stop : Nat}
    (hsorted : InOrder start stop marks) (hstand : ∀ m ∈ marks, m.StandsIn row)
    (hdeep : ∃ q, opening (limit + 1) q ∈ marks) :
    ∃ place front e more, o.told = front ++ e :: more ∧ e.cause = .tooDeep ∧
      FirstTooDeep limit marks row place front e := by
  have hparted : PartedAt (· = .tooDeep) o.told o'.told := by
    rcases h with rfl | hparted
    · obtain ⟨q, hq⟩ := hdeep
      obtain ⟨-, next, hnext⟩ := hstand _ hq
      refine .self_of_marked ⟨tooDeepAt next, ?_, rfl⟩
      rw [htold]
      exact List.mem_filterMap.2 ⟨_, hq, by simp [errorIn, hnext]⟩
    · exact hparted
  obtain ⟨front, e, more, more', ho, ho', he, hfront⟩ := hparted.exists_first
  obtain ⟨place, hfirst⟩ := firstTooDeep hsorted hstand (htold.symm.trans ho') he hfront
  exact ⟨place, front, e, more, ho, he, hfirst⟩

end Landmark

namespace TokenStream

open Landmark (FirstTooDeep exists_firstTooDeep)

variable {stream : TokenStream} {ts rest : List Token} {options : Options}

theorem readProgram_tooDeep {p : List Stmt} (hderivable : ∀ s ∈ p, s.Derivable)
    (hnesting : maxNesting < Stmt.nestingOfAll p) (hw : Stmt.WritesAll p ts)
    (hstream : stream.tokens = ts) :
    ∃ place front e more, (stream.readProgram options).1.errors = front ++ e :: more ∧
      FirstTooDeep maxNesting (Stmt.landmarksOfAll 0 0 p) ts place front e := by
  subst hstream
  have hroom := Stmt.nestingOfAll_le_iff.1 (Nat.le_refl (Stmt.nestingOfAll p))
  have hat : StandsAt stream.tokens 0 stream.tokens := List.prefix_rfl
  have hadvances := Stmt.advances_probing maxNesting (Stmt.nestingOfAll p) 0
  have hagrees : UpToDepth (List Stmt) program (collectUntil (fun _ => false) _) :=
    Stmt.congruent_upToDepth.collectUntil (Stmt.advances_of_room maxNesting) hadvances
      (Stmt.upToDepth_probing rfl hnesting)
  have heach : Stmt.ReadsEachMarked (Stmt.probing maxNesting (Stmt.nestingOfAll p) 0)
      ⟨options, stream.inputEnd⟩ stream.tokens maxNesting 0 p := fun s hs =>
    ⟨hderivable s hs, fun place ts rest hw hat hrest =>
      (hderivable s hs).takes_probing hw hat (hroom s hs) hrest 0⟩
  have hreads : (collectUntil (fun _ => false) _).Takes _ stream.tokens [] p _ :=
    Stmt.takes_all_marked hadvances heach hw hat (by simp) (by simp)
  have hall := hagrees options options stream.inputEnd stream.tokens rfl
  rw [takes_to_end_iff.1 hreads, run_program] at hall
  obtain ⟨place, front, e, more, htold, -, hfirst⟩ := exists_firstTooDeep hall rfl
    (Stmt.landmarksOfAll_inOrder p 0 0)
    (hw.landmarks_standIn (fun s hs => ⟨hderivable s hs, (hderivable s hs).landmarks_standIn⟩) hat 0)
    (Stmt.exists_openingOfAll p 0 (Nat.succ_pos _) (by omega))
  exact ⟨place, front, e, more, htold, hfirst⟩

theorem readExpression_tooDeep {e : Expr} (hderivable : e.Derivable)
    (hnesting : maxNesting < e.nesting) (hw : e.Writes ts) (hstream : stream.tokens = ts ++ rest)
    (hends : Expr.EndsBefore 0 rest) :
    (stream.readExpression options).1.value = none ∧
      ∃ place front f, (stream.readExpression options).1.errors = front ++ [f] ∧
        FirstTooDeep maxNesting (e.landmarks 0 0) ts place front f := by
  have hat : StandsAt ts 0 ts := List.prefix_rfl
  have hreads : (Expr.probing maxNesting e.nesting 0).Takes ⟨options, stream.inputEnd⟩ ts rest e _ :=
    hderivable.takes_probing hw hat (Nat.le_refl _) hends _ _
  have hagrees : UpToDepth Expr (Expr.parser maxNesting) (Expr.probing maxNesting e.nesting 0) :=
    Expr.upToDepth_probing rfl hnesting
  have hall := hagrees options options stream.inputEnd stream.tokens rfl
  rw [hstream, hreads, ← hstream] at hall
  obtain ⟨place, front, f, more, htold, hf, hfirst⟩ := exists_firstTooDeep hall rfl
    (e.landmarks_inOrder 0 0) (hderivable.landmarks_standIn hw hat 0)
    (e.exists_opening 0 (Nat.succ_pos _) (by omega))
  -- The errors in an expression that do not stop it are none of levels.
  have hstops : f ∉ ((Expr.parser maxNesting).run ⟨options, stream.inputEnd⟩ stream.tokens).errors := by
    intro hmem
    have hpassing := (Expr.confined_of_room maxNesting _ _).tells f hmem
    simp [Expr.bounds, hf, SyntaxCause.isPassing] at hpassing
  unfold readExpression read
  rcases hrun : (Expr.parser maxNesting).run ⟨options, stream.inputEnd⟩ stream.tokens with
    ⟨last | a, errors, left⟩
  · rw [hrun] at htold hstops
    have htold : errors ++ [last] = front ++ f :: more := htold
    refine ⟨rfl, place, front, f, ?_, hfirst⟩
    rcases List.eq_nil_or_concat more with rfl | ⟨others, t, rfl⟩
    · exact htold
    · have hsplit : errors ++ [last] = (front ++ f :: others) ++ [t] := by simpa using htold
      obtain ⟨rfl, -⟩ := List.append_inj' hsplit rfl
      simp at hstops
  · rw [hrun] at htold hstops
    have htold : errors = front ++ f :: more := htold
    simp [htold] at hstops

/-- What nests deeper than allowed is told so at the first level behind the limit, right behind the
token that opens it. All that is told of before are arguments too many that start up to there. An
expression is dropped, and that error is its last one. -/
theorem nesting_limit_exact (options : Options) :
    (∀ (p : List Stmt) (ts : List Token) (eof : Token) (behind : List Token),
      (∀ s ∈ p, s.Derivable) → maxNesting < Stmt.nestingOfAll p → Stmt.WritesAll p ts →
      eof.kind = .endOfInput →
      ∃ place front f more,
        ((ofTokens (ts ++ eof :: behind)).readProgram options).1.errors = front ++ f :: more ∧
        FirstTooDeep maxNesting (Stmt.landmarksOfAll 0 0 p) ts place front f) ∧
    (∀ (e : Expr) (ts : List Token) (t : Token) (behind : List Token),
      e.Derivable → maxNesting < e.nesting → e.Writes ts → holdOf? t.kind = none →
      let expression := ((ofTokens (ts ++ t :: behind)).readExpression options).1
      expression.value = none ∧
      ∃ place front f, expression.errors = front ++ [f] ∧
        FirstTooDeep maxNesting (e.landmarks 0 0) ts place front f) := by
  constructor
  · intro p ts eof behind hderivable hnesting hw heof
    have hstream : (ofTokens (ts ++ eof :: behind)).tokens = ts := by
      rw [ofTokens_append (hw.kind_ne_endOfInput fun s hs _ => (hderivable s hs).kind_ne_endOfInput),
        ofTokens_endOfInput heof, List.append_nil]
    exact readProgram_tooDeep hderivable hnesting hw hstream
  · intro e ts t behind hderivable hnesting hw ht expression
    exact readExpression_tooDeep hderivable hnesting hw
      (ofTokens_append (hderivable.kind_ne_endOfInput hw) _) (endsBefore_ofTokens ht behind)

/-! ## A tower -/

/-- A call in which negated groups and calls stand in one another, three levels a storey. -/
def tower : Nat → Expr
  | 0 => .literal (.ofKind .nilKeyword)
  | storeys + 1 =>
    .call (.reference (.ofKind .identifier))
      [.unary (.ofKind .minus) (.grouping (tower storeys))] (.ofKind .rightParen)

def towerTokens : Nat → List Token
  | 0 => Token.ofKinds [.nilKeyword]
  | storeys + 1 =>
    Token.ofKinds [.identifier, .leftParen, .minus, .leftParen] ++
      (towerTokens storeys ++ Token.ofKinds [.rightParen, .rightParen])

theorem derivable_tower (storeys : Nat) : (tower storeys).Derivable := by
  induction storeys with
  | zero => exact .literal rfl
  | succ storeys ih =>
    refine .call rfl (by decide) (.reference rfl) ?_
    simpa using Expr.Derivable.unary (.inr rfl) (by simp [Expr.rank]) (.grouping ih)

theorem writes_tower (storeys : Nat) : (tower storeys).Writes (towerTokens storeys) := by
  induction storeys with
  | zero => exact .literal
  | succ storeys ih =>
    have hgroup : (Expr.grouping (tower storeys)).Writes
        (.ofKind .leftParen :: towerTokens storeys ++ [.ofKind .rightParen]) := .grouping rfl ih rfl
    have hcall : (tower (storeys + 1)).Writes ([.ofKind .identifier] ++ .ofKind .leftParen ::
        (.ofKind .minus :: (.ofKind .leftParen :: towerTokens storeys ++ [.ofKind .rightParen])) ++
          [.ofKind .rightParen]) :=
      .call .reference rfl (.one (.unary hgroup))
    simpa [towerTokens, Token.ofKinds] using hcall

theorem nesting_tower (storeys : Nat) : (tower storeys).nesting = 3 * storeys := by
  induction storeys with
  | zero => rfl
  | succ storeys ih =>
    simp only [tower, Expr.nesting, Expr.nestingOfArguments, ih]
    omega

/-- A tower of 21 storeys in a block, as the condition of an empty block. -/
def towerInBlock : Stmt := .block [.ifThen (tower 21) (.block [])]

def towerInBlockTokens : List Token :=
  Token.ofKinds [.leftBrace, .ifKeyword, .leftParen] ++
    (towerTokens 21 ++ Token.ofKinds [.rightParen, .leftBrace, .rightBrace, .rightBrace])

theorem derivable_towerInBlock : towerInBlock.Derivable := by
  refine .block ?_
  simpa using Stmt.Derivable.ifThen (derivable_tower 21) (.block (by simp)) rfl

theorem write_towerInBlock : Stmt.WritesAll [towerInBlock] towerInBlockTokens := by
  have hempty : (Stmt.block []).Writes (.ofKind .leftBrace :: [] ++ [.ofKind .rightBrace]) :=
    .block rfl .nil rfl
  have hconditional : (Stmt.ifThen (tower 21) (.block [])).Writes
      (.ofKind .ifKeyword :: .ofKind .leftParen :: towerTokens 21 ++
        .ofKind .rightParen :: [.ofKind .leftBrace, .ofKind .rightBrace]) :=
    .ifThen rfl rfl (writes_tower 21) rfl hempty
  have hblock : towerInBlock.Writes _ :=
    @Stmt.Writes.block (.ofKind .leftBrace) _ _ (.ofKind .rightBrace) rfl
      (.cons hconditional .nil) rfl
  have hall := Stmt.WritesAll.cons hblock .nil
  simpa [towerInBlockTokens, Token.ofKinds] using hall

theorem nesting_limit_exact_of_tower :
    (∀ s ∈ [towerInBlock], s.Derivable) ∧ Stmt.WritesAll [towerInBlock] towerInBlockTokens ∧
    maxNesting < Stmt.nestingOfAll [towerInBlock] ∧
    (∃ place front f more,
      ((ofTokens (towerInBlockTokens ++ [.ofKind .endOfInput])).readProgram .strict).1.errors =
        front ++ f :: more ∧
      FirstTooDeep maxNesting (Stmt.landmarksOfAll 0 0 [towerInBlock]) towerInBlockTokens place front
        f) ∧
    maxNesting < (tower 22).nesting ∧
    ((ofTokens (towerTokens 22 ++ [.ofKind .endOfInput])).readExpression .strict).1.value = none := by
  have hderivable : ∀ s ∈ [towerInBlock], s.Derivable := by simpa using derivable_towerInBlock
  have hnesting : maxNesting < Stmt.nestingOfAll [towerInBlock] := by
    simp [towerInBlock, Stmt.nestingOfAll, Stmt.nesting, nesting_tower, maxNesting]
  have hdeep : maxNesting < (tower 22).nesting := by
    rw [nesting_tower]
    decide
  have hexact := nesting_limit_exact .strict
  exact ⟨hderivable, write_towerInBlock, hnesting,
    hexact.1 _ _ (.ofKind .endOfInput) [] hderivable hnesting write_towerInBlock rfl, hdeep,
    (hexact.2 _ _ (.ofKind .endOfInput) [] (derivable_tower 22) hdeep (writes_tower 22) rfl).1⟩

end TokenStream

end ScriptSyntax
