import ScriptSyntax.Proofs.Strictness
/-! # Reading past the limit

A second grammar does not stop at what is nested too deep. It tells of each level that is the first one
too deep, and reads on. The grammar with the limit makes the same of a row of tokens, unless it is
stopped by such a level: then that error is the first one in which the two differ.
-/

namespace ScriptSyntax

namespace Parser

variable {α : Type} {limit level : Nat} {setting : Setting} {ts rest : List Token} {a : α}
  {errors : List SyntaxError}

/-- Reads what stands one level deeper. Where that level is the first one too deep, tells of it. -/
def probe (limit level : Nat) (p : Parser α) : Parser α :=
  if level = limit then reportNext .tooDeep >>= fun _ => p else p

/-- The error that tells of a level too deep, which starts with a token. -/
def tooDeepAt (t : Token) : SyntaxError := ⟨.token t, .tooDeep⟩

theorem Takes.probe {p : Parser α} {t : Token} (h : p.Takes setting (t :: ts) rest a errors)
    (limit level : Nat) :
    (p.probe limit level).Takes setting (t :: ts) rest a
      ((if level = limit then [tooDeepAt t] else []) ++ errors) := by
  unfold Parser.probe
  split
  · have htold : (reportNext .tooDeep).Takes setting [] (t :: ts ++ rest) () [tooDeepAt t] :=
      takes_reportNext_iff.2 ⟨rfl, rfl⟩
    exact htold.bind h
  · exact h

/-- What stops at the limit parts from what only tells of it. -/
theorem fail_agreesWith_probe (limit : Nat) (p : Parser α) (together : Options → Options → Prop) :
    (fail .tooDeep : Parser α).AgreesWith (p.probe limit limit) together (· = .tooDeep) := by
  intro options options' inputEnd tokens _
  right
  unfold probe
  rw [if_pos rfl, run_bind, run_reportNext, Outcome.andThen_ok, Outcome.told_behind]
  exact .here rfl

end Parser

open ScriptSyntax.Parser

/-- Two parsers make the same of a row of tokens, or the first errors in which they differ tell of a
level too deep. -/
def UpToDepth (α : Type) (p q : Parser α) : Prop := p.AgreesWith q Eq (· = .tooDeep)

theorem UpToDepth.probe {α : Type} {p q : Parser α} {limit level : Nat} (h : UpToDepth α p q)
    (hlevel : level ≠ limit) : UpToDepth α p (q.probe limit level) := by
  unfold Parser.probe
  rw [if_neg hlevel]
  exact h

namespace Expr

/-- The parsers for what stands deeper, with room for that many levels from `level` on, of which those
from the limit on are too deep. -/
def Deeper.probing (limit : Nat) : (room level : Nat) → Deeper
  | 0, _ => ⟨fail .tooDeep, fail .tooDeep⟩
  | room + 1, level =>
    let deeper := probing limit room (level + 1)
    ⟨(prefixed deeper).probe limit level, (expression deeper).probe limit level⟩

/-- An expression at a level. -/
def probing (limit room level : Nat) : Parser Expr := expression (Deeper.probing limit room level)

theorem congruent_upToDepth : Congruent (fun _ => True) UpToDepth := congruent_agreesWith _ _

theorem related_probing {left room level limit : Nat} (hlimit : left + level = limit)
    (hroom : left < room) :
    (Deeper.ofRoom left).Related (.probing limit room level) UpToDepth := by
  induction left generalizing room level with
  | zero =>
    obtain rfl : level = limit := by omega
    obtain ⟨room, rfl⟩ := Nat.exists_eq_succ_of_ne_zero (Nat.ne_zero_of_lt hroom)
    exact ⟨fail_agreesWith_probe _ _ _, fail_agreesWith_probe _ _ _⟩
  | succ left ih =>
    obtain ⟨room, rfl⟩ := Nat.exists_eq_succ_of_ne_zero (Nat.ne_zero_of_lt hroom)
    have hlevel : level ≠ limit := by omega
    have hdeeper := ih (by omega : left + (level + 1) = limit) (Nat.lt_of_succ_lt_succ hroom)
    exact ⟨(related_prefixed congruent_upToDepth hdeeper).probe hlevel,
      (related_expression congruent_upToDepth hdeeper).probe hlevel⟩

theorem upToDepth_probing {left room level limit : Nat} (hlimit : left + level = limit)
    (hroom : left < room) : UpToDepth Expr (parser left) (probing limit room level) :=
  related_expression congruent_upToDepth (related_probing hlimit hroom)

/-! ## What is made of it -/

theorem Makes.probe {p : Parser Expr} {rank below : Nat} (h : Makes p rank below)
    (limit level : Nat) : Makes (p.probe limit level) rank below := by
  intro setting read rest e errors he
  unfold Parser.probe at he
  split at he
  · rw [takes_bind_iff] at he
    simp only [takes_reportNext_iff] at he
    obtain ⟨_, read, _, _, told, rfl, rfl, ⟨rfl, rfl⟩, he⟩ := he
    exact { h he with writes := by simp }
  · exact h he

theorem makesBelow_probing (limit room level : Nat) :
    (Deeper.probing limit room level).MakesBelow room := by
  induction room generalizing level with
  | zero =>
    exact ⟨fun _ _ _ _ _ h => absurd h not_takes_fail, fun _ _ _ _ _ h => absurd h not_takes_fail⟩
  | succ room ih => exact ⟨(makes_prefixed (ih _)).probe _ _, (makes_expression (ih _)).probe _ _⟩

end Expr

namespace Stmt

/-- The same for the parsers for statements. -/
def Deeper.probing (limit : Nat) : (room level : Nat) → Deeper
  | 0, _ => ⟨fail .tooDeep, fail .tooDeep⟩
  | room + 1, level =>
    let expression := Expr.probing limit room (level + 1)
    let statement := statement expression (probing limit room (level + 1))
    ⟨(restOfConditional expression statement).probe limit level,
      (restOfBlock (declaration expression statement)).probe limit level⟩

/-- A declaration at a level. -/
def probing (limit room level : Nat) : Parser (Option Stmt) :=
  let expression := Expr.probing limit room level
  declaration expression (statement expression (Deeper.probing limit room level))

theorem advances_probing (limit room level : Nat) : (probing limit room level).Advances :=
  advances_declaration (Expr.makes_expression (Expr.makesBelow_probing limit room level)) _

theorem congruent_upToDepth : Congruent (fun _ => True) UpToDepth where
  toCongruent := Expr.congruent_upToDepth
  semicolon := by
    rintro options _ inputEnd tokens rfl
    exact .inl rfl
  resume := AgreesWith.resume

theorem related_probing {left room level limit : Nat} (hlimit : left + level = limit)
    (hroom : left < room) :
    (Deeper.ofRoom left).Related (.probing limit room level) UpToDepth := by
  induction left generalizing room level with
  | zero =>
    obtain rfl : level = limit := by omega
    obtain ⟨room, rfl⟩ := Nat.exists_eq_succ_of_ne_zero (Nat.ne_zero_of_lt hroom)
    exact ⟨fail_agreesWith_probe _ _ _, fail_agreesWith_probe _ _ _⟩
  | succ left ih =>
    obtain ⟨room, rfl⟩ := Nat.exists_eq_succ_of_ne_zero (Nat.ne_zero_of_lt hroom)
    have hroom := Nat.lt_of_succ_lt_succ hroom
    have hlevel : level ≠ limit := by omega
    have hnext : left + (level + 1) = limit := by omega
    have hexpression := Expr.upToDepth_probing hnext hroom
    have hstatement := related_statement congruent_upToDepth hexpression (ih hnext hroom)
    have hdeclaration := congruent_upToDepth.resume
      (related_variableOrStatement congruent_upToDepth hexpression hstatement)
    have hconditional := related_restOfConditional congruent_upToDepth hexpression hstatement
    have hblock := related_restOfBlock congruent_upToDepth (advances_of_room left)
      (advances_probing limit room (level + 1)) hdeclaration
    exact ⟨hconditional.probe hlevel, hblock.probe hlevel⟩

theorem upToDepth_probing {left room level limit : Nat} (hlimit : left + level = limit)
    (hroom : left < room) : UpToDepth (Option Stmt) (parser left) (probing limit room level) :=
  have hexpression := Expr.upToDepth_probing hlimit hroom
  congruent_upToDepth.resume (related_variableOrStatement congruent_upToDepth hexpression
    (related_statement congruent_upToDepth hexpression (related_probing hlimit hroom)))

end Stmt

end ScriptSyntax
