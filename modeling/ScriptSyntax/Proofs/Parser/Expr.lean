import ScriptSyntax.Proofs.Grammar.Expr
import ScriptSyntax.Proofs.Parser.Takes
/-! # What the parsers for expressions take

For each of them, what it takes in terms of what the parsers that it is made of take.
-/

namespace ScriptSyntax.Expr

open ScriptSyntax.Parser

variable {deeper : Deeper} {setting : Setting} {read rest : List Token}
  {errors : List SyntaxError} {e : Expr}

/-! ## Primary expressions and calls -/

theorem takes_group_iff :
    (group deeper).Takes setting read rest e errors ↔
      ∃ inner ts closing, e = grouping inner ∧ read = ts ++ [closing] ∧
        closing.kind = .rightParen ∧ deeper.inside.Takes setting ts (closing :: rest) inner errors := by
  unfold group
  rw [takes_bind_iff]
  simp only [takes_expect_bind_iff, takes_pure_iff]
  constructor
  · rintro ⟨ts, _, inner, _, _, rfl, rfl, hinner, closing, _, hkind, rfl, rfl, rfl, rfl⟩
    exact ⟨inner, ts, closing, rfl, rfl, hkind, by simpa using hinner⟩
  · rintro ⟨inner, ts, closing, rfl, rfl, hkind, hinner⟩
    exact ⟨ts, [closing], inner, errors, [], rfl, by simp, hinner, closing, [], hkind, rfl, rfl, rfl,
      rfl⟩

theorem takes_primary_iff :
    (primary deeper).Takes setting read rest e errors ↔
      (∃ t, startsLiteral t.kind = true ∧ e = literal t ∧ read = [t] ∧ errors = []) ∨
      (∃ t, t.kind = .identifier ∧ e = reference t ∧ read = [t] ∧ errors = []) ∨
      ∃ t more, t.kind = .leftParen ∧ read = t :: more ∧
        (group deeper).Takes setting more rest e errors := by
  unfold primary
  rw [takes_onNext_iff]
  constructor
  · rintro (⟨t, p, more, hp, rfl, h⟩ | ⟨-, h⟩)
    · split at hp
      case h_6 hkind =>
        cases hp
        obtain ⟨rfl, rfl, rfl⟩ := takes_pure_iff.1 h
        exact .inr (.inl ⟨t, hkind, rfl, rfl, rfl⟩)
      case h_7 hkind =>
        cases hp
        exact .inr (.inr ⟨t, more, hkind, rfl, h⟩)
      case h_8 => contradiction
      all_goals
        rename_i hkind
        cases hp
        obtain ⟨rfl, rfl, rfl⟩ := takes_pure_iff.1 h
        exact .inl ⟨t, by rw [hkind]; rfl, rfl, rfl, rfl⟩
    · exact absurd h not_takes_fail
  · rintro (⟨t, hkind, rfl, rfl, rfl⟩ | ⟨t, hkind, rfl, rfl, rfl⟩ | ⟨t, more, hkind, rfl, h⟩)
    · refine .inl ⟨t, fun t => pure (literal t), [], ?_, rfl, takes_pure_iff.2 ⟨rfl, rfl, rfl⟩⟩
      revert hkind
      cases t.kind <;> simp [startsLiteral]
    · exact .inl ⟨t, fun t => pure (reference t), [], by rw [hkind], rfl,
        takes_pure_iff.2 ⟨rfl, rfl, rfl⟩⟩
    · exact .inl ⟨t, fun _ => group deeper, more, by rw [hkind], rfl, h⟩

theorem takes_argument_iff {earlier es : Array Expr} :
    (argument deeper earlier).Takes setting read rest es errors ↔
      ∃ e told, es = earlier.push e ∧
        errors = (if earlier.size = maxArguments then
          [⟨setting.site (read ++ rest), .tooManyArguments⟩] else []) ++ told ∧
        deeper.inside.Takes setting read rest e told := by
  unfold argument
  split
  · rw [takes_bind_iff]
    simp only [takes_reportNext_iff, takes_bind_pure_iff]
    constructor
    · rintro ⟨_, ts, _, _, told, rfl, rfl, ⟨rfl, rfl⟩, e, rfl, h⟩
      exact ⟨e, told, rfl, rfl, h⟩
    · rintro ⟨e, told, rfl, rfl, h⟩
      exact ⟨[], read, (), _, told, rfl, rfl, ⟨rfl, rfl⟩, e, rfl, h⟩
  · rw [takes_bind_pure_iff]
    simp

theorem takes_arguments_iff {es : Array Expr} :
    (arguments deeper).Takes setting read rest es errors ↔
      (read ++ rest).head?.any (·.kind = .rightParen) = true ∧ es = #[] ∧ read = [] ∧ errors = [] ∨
      (read ++ rest).head?.any (·.kind = .rightParen) = false ∧
        (argument deeper #[] >>= foldWhile (· = .comma) fun earlier _ => argument deeper earlier).Takes
          setting read rest es errors := by
  unfold arguments
  rw [takes_bind_iff]
  simp only [takes_nextIs_iff]
  constructor
  · rintro ⟨_, ts, b, _, told, rfl, rfl, ⟨rfl, rfl, rfl⟩, h⟩
    split at h
    · rename_i hnext
      obtain ⟨rfl, rfl, rfl⟩ := takes_pure_iff.1 h
      exact .inl ⟨hnext, rfl, rfl, rfl⟩
    · rename_i hnext
      exact .inr ⟨by simpa using hnext, h⟩
  · rintro (⟨hnext, rfl, rfl, rfl⟩ | ⟨hnext, h⟩)
    · exact ⟨[], [], true, [], [], rfl, rfl, ⟨rfl, hnext.symm, rfl⟩,
        takes_pure_iff.2 ⟨rfl, rfl, rfl⟩⟩
    · exact ⟨[], read, false, [], errors, rfl, rfl, ⟨rfl, hnext.symm, rfl⟩, h⟩

theorem takes_restOfCall_iff {callee : Expr} :
    (restOfCall deeper callee).Takes setting read rest e errors ↔
      ∃ es ts closing, e = call callee es.toList closing ∧ read = ts ++ [closing] ∧
        closing.kind = .rightParen ∧
        (arguments deeper).Takes setting ts (closing :: rest) es errors := by
  unfold restOfCall
  rw [takes_bind_iff]
  simp only [takes_expect_bind_iff, takes_pure_iff]
  constructor
  · rintro ⟨ts, _, es, _, _, rfl, rfl, h, closing, _, hkind, rfl, rfl, rfl, rfl⟩
    exact ⟨es, ts, closing, rfl, rfl, hkind, by simpa using h⟩
  · rintro ⟨es, ts, closing, rfl, rfl, hkind, h⟩
    exact ⟨ts, [closing], es, errors, [], rfl, by simp, h, closing, [], hkind, rfl, rfl, rfl, rfl⟩

/-! ## Prefix operators and assignments -/

theorem takes_prefixed_iff :
    (prefixed deeper).Takes setting read rest e errors ↔
      (∃ t more operand, (t.kind = .bang ∨ t.kind = .minus) ∧ e = unary t operand ∧
        read = t :: more ∧ deeper.operand.Takes setting more rest operand errors) ∨
      (∀ t ∈ (read ++ rest).head?, t.kind ≠ .bang ∧ t.kind ≠ .minus) ∧
        (application deeper).Takes setting read rest e errors := by
  unfold prefixed
  rw [takes_onNext_iff]
  constructor
  · rintro (⟨t, p, more, hp, rfl, h⟩ | ⟨hnext, h⟩)
    · split at hp
      case h_3 => contradiction
      all_goals
        rename_i hkind
        cases hp
        obtain ⟨operand, rfl, hoperand⟩ := takes_bind_pure_iff.1 h
        exact .inl ⟨t, more, operand, by simp [hkind], rfl, rfl, hoperand⟩
    · refine .inr ⟨fun t ht => ?_, h⟩
      have := hnext t ht
      constructor <;> intro hkind <;> simp [hkind] at this
  · rintro (⟨t, more, operand, hkind, rfl, rfl, h⟩ | ⟨hnext, h⟩)
    · refine .inl ⟨t, fun operator => do return unary operator (← deeper.operand), more, ?_, rfl,
        takes_bind_pure_iff.2 ⟨operand, rfl, h⟩⟩
      rcases hkind with hkind | hkind <;> rw [hkind]
    · refine .inr ⟨fun t ht => ?_, h⟩
      obtain ⟨hbang, hminus⟩ := hnext t ht
      split
      · contradiction
      · contradiction
      · rfl

theorem takes_assign_iff {left value : Expr} {equals : Token} :
    (assign left equals value).Takes setting read rest e errors ↔
      read = [] ∧
        ((∃ target, left = reference target ∧ e = assignment target value ∧ errors = []) ∨
        (∀ target, left ≠ reference target) ∧ e = left ∧
          errors = [⟨.token equals, .badAssignmentTarget⟩]) := by
  unfold assign
  split
  · rw [takes_pure_iff]
    simp
  · rename_i hleft
    rw [takes_bind_iff]
    simp only [takes_report_iff, takes_pure_iff]
    constructor
    · rintro ⟨_, _, _, _, _, rfl, rfl, ⟨rfl, rfl⟩, rfl, rfl, rfl⟩
      exact ⟨rfl, .inr ⟨hleft, rfl, rfl⟩⟩
    · rintro ⟨rfl, ⟨target, rfl, -⟩ | ⟨-, rfl, rfl⟩⟩
      · exact absurd rfl (hleft target)
      · exact ⟨[], [], (), _, [], rfl, rfl, ⟨rfl, rfl⟩, rfl, rfl, rfl⟩

theorem takes_expression_iff :
    (expression deeper).Takes setting read rest e errors ↔
      ((operation (prefixed deeper)).Takes setting read rest e errors ∧
        ∀ t ∈ rest.head?, t.kind ≠ .equal) ∨
      ∃ left ts equals us value earlier told last, equals.kind = .equal ∧
        read = ts ++ equals :: us ∧ errors = earlier ++ (told ++ last) ∧
        (operation (prefixed deeper)).Takes setting ts (equals :: us ++ rest) left earlier ∧
        deeper.inside.Takes setting us rest value told ∧
        (assign left equals value).Takes setting [] rest e last := by
  unfold expression
  rw [takes_bind_iff]
  constructor
  · rintro ⟨ts, _, left, earlier, _, rfl, rfl, hleft, h⟩
    rw [takes_onNext_kind_iff rfl (fun k hk => by split <;> first | contradiction | rfl)] at h
    rcases h with ⟨equals, _, hkind, rfl, h⟩ | ⟨hnext, h⟩
    · obtain ⟨us, _, value, told, last, rfl, rfl, hvalue, hassign⟩ := takes_bind_iff.1 h
      obtain rfl := (takes_assign_iff.1 hassign).1
      exact .inr ⟨left, ts, equals, us, value, earlier, told, last, hkind, by simp, rfl,
        by simpa using hleft, hvalue, hassign⟩
    · obtain ⟨rfl, rfl, rfl⟩ := takes_pure_iff.1 h
      exact .inl ⟨by simpa using hleft, hnext⟩
  · rintro (⟨hleft, hnext⟩ | ⟨left, ts, equals, us, value, earlier, told, last, hkind, rfl, rfl,
      hleft, hvalue, hassign⟩)
    · refine ⟨read, [], e, errors, [], by simp, by simp, hleft, ?_⟩
      rw [takes_onNext_kind_iff rfl (fun k hk => by split <;> first | contradiction | rfl)]
      exact .inr ⟨hnext, takes_pure_iff.2 ⟨rfl, rfl, rfl⟩⟩
    · refine ⟨ts, equals :: us, left, earlier, told ++ last, rfl, rfl, hleft, ?_⟩
      rw [takes_onNext_kind_iff rfl (fun k hk => by split <;> first | contradiction | rfl)]
      refine .inl ⟨equals, us, hkind, rfl, ?_⟩
      exact takes_bind_iff.2 ⟨us, [], value, told, last, (List.append_nil us).symm, rfl, hvalue,
        hassign⟩

end ScriptSyntax.Expr
