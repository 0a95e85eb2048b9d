import ScriptSyntax.Proofs.Completeness.Stmt
import ScriptSyntax.Proofs.Omission.Places
/-! # Statements that lack semicolons

Without the strict options, an expression statement is read without its semicolon too, if it stands in
front of a keyword that begins a statement, of a closing brace, or of the end of the input. That the
semicolon is missing is told of there.
-/

namespace ScriptSyntax.Stmt

open ScriptSyntax.Parser
open ScriptSyntax.Expr (tooManyAt EndsBefore)

variable {setting : Setting} {whole ts us vs rest : List Token} {chosen : List Nat} {start : Nat}
  {s : Stmt} {ss : List Stmt} {room : Nat}

/-! ## Semicolons stand at the places -/

def AreSemicolons (whole : List Token) (places : List Nat) : Prop :=
  ∀ i ∈ places, ∃ t more, whole.drop i = t :: more ∧ t.kind = .semicolon

theorem AreSemicolons.append {places others : List Nat} (h : AreSemicolons whole places)
    (h' : AreSemicolons whole others) : AreSemicolons whole (places ++ others) := by
  intro i hi
  rcases List.mem_append.1 hi with hi | hi
  · exact h i hi
  · exact h' i hi

theorem WritesAll.areSemicolons (hss : ∀ s ∈ ss, s.Derivable ∧ ∀ start ts, s.Writes ts →
      StandsAt whole start ts → AreSemicolons whole (s.semicolonsFrom start))
    (hw : WritesAll ss ts) (hat : StandsAt whole start ts) :
    AreSemicolons whole (semicolonsOfAllFrom start ss) := by
  induction ss generalizing start ts with
  | nil => exact fun i hi => absurd hi List.not_mem_nil
  | cons s ss ih =>
    cases hw with
    | cons hfirst hothers =>
      obtain ⟨hderivable, hkind⟩ := hss s (by simp)
      have hlater := hat.right
      rw [hderivable.length_eq hfirst] at hlater
      exact (hkind _ _ hfirst hat.left).append
        (ih (fun s hs => hss s (by simp [hs])) hothers hlater)

theorem Derivable.areSemicolons (h : s.Derivable) (hw : s.Writes ts) (hat : StandsAt whole start ts) :
    AreSemicolons whole (s.semicolonsFrom start) := by
  induction h generalizing start ts with
  | expression h =>
    cases hw with
    | expression hvalue hsemicolon =>
      obtain ⟨rest, hrest⟩ := hat.right
      rw [h.length_eq hvalue] at hrest
      intro i hi
      obtain rfl := List.mem_singleton.1 hi
      exact ⟨_, _, hrest.symm, hsemicolon⟩
  | print | var => exact fun i hi => absurd hi List.not_mem_nil
  | block hss ih =>
    cases hw with
    | block _ hall _ =>
      exact hall.areSemicolons (fun s hs => ⟨hss s hs, fun _ _ => ih s hs⟩) hat.left.tail
  | ifThen h _ _ ih =>
    cases hw with
    | ifThen _ _ hcondition _ hbranch =>
      have hinner := StandsAt.branch hat
      rw [h.length_eq hcondition] at hinner
      exact ih hbranch hinner
  | ifElse h hb _ _ _ _ ih ih' =>
    cases hw with
    | ifElse _ _ hcondition _ hbranch _ halternative =>
      have hinner := StandsAt.branch hat.left
      have hlast := StandsAt.alternative hat
      rw [h.length_eq hcondition] at hinner hlast
      rw [hb.length_eq hbranch] at hlast
      exact (ih hbranch hinner).append (ih' halternative hlast)

/-! ## Statements at their places -/

/-- What is told of missing semicolons: of each of the chosen ones among the places. -/
def missing (setting : Setting) (whole : List Token) (chosen places : List Nat) :
    List SyntaxError :=
  (places.filter (· ∈ chosen)).map fun i => ⟨setting.site (whole.drop (i + 1)), .noSemicolonAfterValue⟩

theorem missing_append (setting : Setting) (whole : List Token) (chosen places others : List Nat) :
    missing setting whole chosen (places ++ others) =
      missing setting whole chosen places ++ missing setting whole chosen others := by
  simp [missing]

/-- A statement is written at a place, without an argument too many, and of its tokens none are chosen
but semicolons of expression statements. -/
structure WrittenAt (s : Stmt) (whole : List Token) (chosen : List Nat) (start : Nat)
    (ts : List Token) : Prop where
  writes : s.Writes ts
  excess_nil : s.excess ts = []
  stands : StandsAt whole start ts
  chosen_mem : ∀ i ∈ chosen, start ≤ i → i < start + ts.length → i ∈ s.semicolonsFrom start

structure AllWrittenAt (ss : List Stmt) (whole : List Token) (chosen : List Nat) (start : Nat)
    (ts : List Token) : Prop where
  write : WritesAll ss ts
  excess_nil : excessOfAll ss ts = []
  stand : StandsAt whole start ts
  chosen_mem : ∀ i ∈ chosen, start ≤ i → i < start + ts.length → i ∈ semicolonsOfAllFrom start ss

theorem WrittenAt.without_eq (hat : s.WrittenAt whole chosen start ts)
    (hnone : s.semicolonsFrom start = []) : without chosen start ts = ts := by
  apply without_eq_self
  intro i hi hle
  apply Nat.le_of_not_lt
  intro hlt
  have := hat.chosen_mem i hi hle hlt
  rw [hnone] at this
  exact absurd this List.not_mem_nil

theorem AllWrittenAt.exists_append (hat : AllWrittenAt (s :: ss) whole chosen start ts)
    (h : s.Derivable) :
    ∃ us vs, ts = us ++ vs ∧ s.WrittenAt whole chosen start us ∧
      AllWrittenAt ss whole chosen (start + us.length) vs := by
  obtain ⟨hw, hexcess, hstand, hchosen⟩ := hat
  cases hw with
  | @cons _ _ us vs hfirst hothers =>
    have hwidth := h.length_eq hfirst
    rw [excessOfAll_cons hwidth] at hexcess
    obtain ⟨hexcess, hexcess'⟩ := List.append_eq_nil_iff.1 hexcess
    have hmem (i : Nat) (hi : i ∈ chosen) (hle : start ≤ i) (hlt : i < start + (us ++ vs).length) :
        i ∈ s.semicolonsFrom start ∨ i ∈ semicolonsOfAllFrom (start + us.length) ss := by
      rw [hwidth]
      exact List.mem_append.1 (hchosen i hi hle hlt)
    simp only [List.length_append] at hmem
    refine ⟨us, vs, rfl, ⟨hfirst, hexcess, hstand.left, fun i hi hle hlt => ?_⟩,
      ⟨hothers, hexcess', hstand.right, fun i hi hle hlt => ?_⟩⟩
    · refine (hmem i hi hle (by omega)).resolve_right fun hlater => ?_
      have := bounds_of_mem_semicolonsOfAllFrom ss hlater
      omega
    · refine (hmem i hi (by omega) (by omega)).resolve_left fun hearlier => ?_
      have := s.bounds_of_mem_semicolonsFrom hearlier
      omega

/-- A parser makes a value of such a statement without its chosen semicolons, and tells of them. -/
def ReadsWithout {α : Type} (p : Parser α) (a : α) (s : Stmt) (setting : Setting)
    (whole : List Token) (chosen : List Nat) : Prop :=
  ∀ start ts, s.WrittenAt whole chosen start ts →
    s.MayPrecede (remaining chosen whole (start + ts.length)) →
    p.Takes setting (without chosen start ts) (remaining chosen whole (start + ts.length)) a
      (missing setting whole chosen (s.semicolonsFrom start))

/-! ## Expression statements -/

theorem endsBefore_of_atStatementEnd (h : atStatementEnd rest = true) : EndsBefore 0 rest := by
  cases rest with
  | nil => simp [EndsBefore]
  | cons t rest =>
    have hkind (kind : TokenKind) :
        (decide (kind = .rightBrace) || kind.startsStatement) = true → Expr.holdOf? kind = none := by
      cases kind <;> decide
    exact Expr.endsBefore_of_holdOf?_eq_none (hkind t.kind h) 0

theorem kind_ne_semicolon_of_atStatementEnd (h : atStatementEnd rest = true) :
    ∀ t ∈ rest.head?, t.kind ≠ .semicolon := by
  intro t ht hkind
  obtain ⟨more, rfl⟩ := List.head?_eq_some_iff.1 ht
  unfold atStatementEnd at h
  simp only [hkind] at h
  contradiction

theorem atStatementEnd_remaining (hmay : MayLeaveOut chosen whole)
    (hend : atStatementEnd (whole.drop start) = true) (setting : Setting) :
    atStatementEnd (remaining chosen whole start) = true ∧
      setting.site (remaining chosen whole start) = setting.site (whole.drop start) := by
  have hnext := hmay.head?_remaining (kind_ne_semicolon_of_atStatementEnd hend)
  revert hnext hend
  cases whole.drop start <;> cases remaining chosen whole start <;>
    simp +contextual [atStatementEnd, Setting.site]

theorem takes_bareExpression_of_missing {value : Expr} (h : value.Derivable) (hw : value.Writes ts)
    (hroom : value.nesting ≤ room) (hlenient : setting.options.strictSemicolons = false)
    (hend : atStatementEnd rest = true) (deeper : Deeper) :
    (statement (Expr.parser room) deeper).Takes setting ts rest (.expression value)
      ((value.excess ts).map tooManyAt ++ [⟨setting.site rest, .noSemicolonAfterValue⟩]) := by
  have hvalue : (Expr.parser room).Takes setting ts rest value _ :=
    h.takes_of_room hw hroom (endsBefore_of_atStatementEnd hend)
  have hnext := kind_ne_semicolon_of_atStatementEnd hend
  obtain ⟨t, more, rfl, ht, -⟩ := h.exists_first hw
  refine takes_statement_iff.2 (.inr (.inr (.inr ⟨?_, ?_⟩)))
  · simp only [List.cons_append, List.head?_cons, Option.mem_some_iff, forall_eq']
    refine ⟨?_, ?_, ?_⟩ <;> intro hkind <;> rw [hkind] at ht <;> contradiction
  · refine takes_bareExpression_iff.2 ⟨value, t :: more, [], _, _, rfl, by simp, rfl, hvalue, ?_⟩
    refine takes_semicolon_iff.2 (.inr ⟨hnext, hlenient, rfl, ?_⟩)
    rw [List.nil_append, if_pos hend]

theorem readsWithout_expression {value : Expr} (h : value.Derivable)
    (hroom : value.nesting ≤ room) (hlenient : setting.options.strictSemicolons = false)
    (hmay : MayLeaveOut chosen whole) (deeper : Deeper) :
    ReadsWithout (statement (Expr.parser room) deeper) (.expression value) (.expression value) setting
      whole chosen := by
  intro start ts hat _
  obtain ⟨hw, hexcess, hstands, hchosen⟩ := hat
  cases hw with
  | @expression _ ts semicolon hvalue hsemicolon =>
    have hwidth := h.length_eq hvalue
    rw [excess_expression hwidth] at hexcess
    have hkept : without chosen start ts = ts := by
      apply without_eq_self
      intro i hi hle
      have := hchosen i hi hle
      simp only [semicolonsFrom, List.mem_singleton, List.length_append, List.length_singleton] at this
      omega
    rw [without_append, hkept, List.length_append, List.length_singleton, ← Nat.add_assoc]
    by_cases hmem : start + ts.length ∈ chosen
    · rw [without_cons_of_mem hmem]
      obtain ⟨omitted, rest, hrest, -, hend⟩ := hmay _ hmem
      have hbehind : whole.drop (start + ts.length + 1) = rest := by
        rw [← List.tail_drop, hrest, List.tail_cons]
      rw [← hbehind] at hend
      obtain ⟨hend, hsite⟩ := atStatementEnd_remaining hmay hend setting
      have htakes := takes_bareExpression_of_missing h hvalue hroom hlenient hend deeper
      have hone : missing setting whole chosen (semicolonsFrom start (.expression value)) =
          [⟨setting.site (whole.drop (start + ts.length + 1)), .noSemicolonAfterValue⟩] := by
        simp [missing, semicolonsFrom, ← hwidth, hmem]
      rw [hexcess, hsite] at htakes
      rw [hone]
      simpa [without] using htakes
    · rw [without_cons_of_not_mem hmem]
      have htakes : (statement (Expr.parser room) deeper).Takes setting (ts ++ [semicolon])
          (remaining chosen whole (start + ts.length + 1)) (.expression value) _ :=
        takes_bareExpression h hvalue hsemicolon
          (h.takes_of_room hvalue hroom (endsBefore_of_kind hsemicolon rfl)) deeper
      have hnone : missing setting whole chosen (semicolonsFrom start (.expression value)) = [] := by
        simp [missing, semicolonsFrom, ← hwidth, hmem]
      rw [hexcess] at htakes
      rw [hnone]
      exact htakes

/-! ## Declarations -/

theorem WrittenAt.exists_first (hat : s.WrittenAt whole chosen start ts) (h : s.Derivable)
    (hmay : MayLeaveOut chosen whole) :
    ∃ t more, without chosen start ts = t :: more ∧ t.kind ≠ .elseKeyword ∧ t.kind ≠ .rightBrace ∧
      (s.isVariable = false → t.kind ≠ .varKeyword) ∧ (whole.drop start).head? = some t ∧
      t.kind ≠ .semicolon := by
  obtain ⟨t, more, rfl, helse, hsemicolon, hbrace, hvar⟩ := h.exists_first hat.writes
  have hhead := hat.stands.head?_drop
  have hkept : start ∉ chosen := by
    apply hmay.not_mem
    simpa [hhead] using hsemicolon
  exact ⟨t, _, without_cons_of_not_mem hkept, helse, hbrace, hvar, hhead, hsemicolon⟩

theorem Derivable.readsWithout_declaration (h : s.Derivable) (hroom : s.nesting ≤ room)
    (hmay : MayLeaveOut chosen whole)
    (hs : s.isVariable = false →
      ReadsWithout (statement (Expr.parser room) (Deeper.ofRoom room)) s s setting whole chosen) :
    ReadsWithout (parser room) (some s) s setting whole chosen := by
  intro start ts hat hrest
  cases hform : s.isVariable with
  | true =>
    have hnone : s.semicolonsFrom start = [] := by
      cases s <;> first | rfl | contradiction
    have htakes : (parser room).Takes setting ts (remaining chosen whole (start + ts.length)) (some s)
        _ := takes_variable h hform hat.writes hroom
    rw [hat.excess_nil] at htakes
    rw [hat.without_eq hnone, hnone]
    exact htakes
  | false =>
    obtain ⟨t, more, hfirst, -, -, hvar, -⟩ := hat.exists_first h hmay
    refine takes_resume_iff.2 (.inl ⟨s, rfl, takes_variableOrStatement_iff.2 (.inr ⟨?_, ?_⟩)⟩)
    · simpa [hfirst] using hvar hform
    · exact hs hform start ts hat hrest

/-! ## Statements in a row -/

/-- What stands from a place on where statements are written, with nothing or a closing brace behind. -/
theorem AllWrittenAt.kind_of_next (hat : AllWrittenAt ss whole chosen start ts)
    (hss : ∀ s ∈ ss, s.Derivable) (hmay : MayLeaveOut chosen whole)
    (hrest : ∀ t ∈ (whole.drop (start + ts.length)).head?, t.kind = .rightBrace) :
    ∀ t ∈ (whole.drop start).head?, t.kind ≠ .elseKeyword ∧ t.kind ≠ .semicolon := by
  cases ss with
  | nil =>
    obtain ⟨hw, -, -, -⟩ := hat
    cases hw
    intro t ht
    have := hrest t ht
    rw [this]
    decide
  | cons s ss =>
    obtain ⟨us, vs, rfl, hfirst, -⟩ := hat.exists_append (hss s (by simp))
    obtain ⟨t, more, -, helse, -, -, hhead, hsemicolon⟩ := hfirst.exists_first (hss s (by simp)) hmay
    rw [hhead]
    simpa using ⟨helse, hsemicolon⟩

theorem takes_all_without {item : Parser (Option Stmt)} (hadvances : item.Advances)
    (hmay : MayLeaveOut chosen whole)
    (hss : ∀ s ∈ ss, s.Derivable ∧ ReadsWithout item (some s) s setting whole chosen)
    (hat : AllWrittenAt ss whole chosen start ts) {stops : TokenKind → Bool}
    (hstops : ∀ kind, stops kind = true → kind = .rightBrace)
    (hrest : ∀ t ∈ (whole.drop (start + ts.length)).head?, stops t.kind = true) :
    (collectUntil stops item).Takes setting (without chosen start ts)
      (remaining chosen whole (start + ts.length)) ss
      (missing setting whole chosen (semicolonsOfAllFrom start ss)) := by
  induction ss generalizing start ts with
  | nil =>
    obtain ⟨hw, -, -, -⟩ := hat
    cases hw
    have hnext := hmay.head?_remaining (i := start) fun t ht hkind => by
      have := hstops _ (hrest t ht)
      rw [hkind] at this
      contradiction
    refine (takes_collectUntil_iff hadvances).2 (.inl ⟨?_, rfl, rfl, rfl⟩)
    rw [List.length_nil, Nat.add_zero, hnext]
    exact hrest
  | cons s ss ih =>
    have hderivables : ∀ s ∈ ss, s.Derivable := fun s hs => (hss s (by simp [hs])).1
    obtain ⟨hderivable, hread⟩ := hss s (by simp)
    obtain ⟨us, vs, rfl, hfirst, hothers⟩ := hat.exists_append hderivable
    rw [List.length_append, ← Nat.add_assoc] at hrest ⊢
    have hnext := hothers.kind_of_next hderivables hmay fun t ht => hstops _ (hrest t ht)
    have hhead := hmay.head?_remaining fun t ht => (hnext t ht).2
    have hitem := hread start us hfirst fun _ t ht => (hnext t (by rw [← hhead]; exact ht)).1
    have hmore := ih (fun s hs => hss s (by simp [hs])) hothers hrest
    obtain ⟨t, more, hthin, -, hbrace, -⟩ := hfirst.exists_first hderivable hmay
    have hgo : stops t.kind = false := Bool.eq_false_iff.2 fun hstop => hbrace (hstops _ hstop)
    rw [hothers.stand.remaining_eq] at hitem
    rw [semicolonsOfAllFrom, missing_append, without_append, ← hderivable.length_eq hfirst.writes]
    refine (takes_collectUntil_iff hadvances).2 (.inr ⟨t, _, by rw [hthin]; rfl, hgo, ?_⟩)
    exact hitem.bind (takes_bind_pure_iff.2 ⟨ss, rfl, hmore⟩)

/-! ## Statements with others in them -/

theorem WrittenAt.block (hat : (Stmt.block ss).WrittenAt whole chosen start ts)
    (hss : ∀ s ∈ ss, s.Derivable) :
    ∃ opening us closing, opening.kind = .leftBrace ∧ closing.kind = .rightBrace ∧
      ts = opening :: us ++ [closing] ∧ AllWrittenAt ss whole chosen (start + 1) us ∧
      without chosen start ts = opening :: without chosen (start + 1) us ++ [closing] := by
  obtain ⟨hw, hexcess, hstands, hchosen⟩ := hat
  cases hw with
  | @block opening _ us closing hopening hall hclosing =>
    have hwidth := hall.length_eq fun s hs _ => (hss s hs).length_eq
    rw [excess_block hwidth] at hexcess
    have hbounds (i : Nat) (hi : i ∈ chosen) (hle : start ≤ i)
        (hlt : i < start + ([opening] ++ us ++ [closing]).length) :
        start + 1 ≤ i ∧ i < start + 1 + us.length := by
      rw [hwidth]
      exact bounds_of_mem_semicolonsOfAllFrom ss (hchosen i hi hle hlt)
    simp only [List.length_append, List.length_cons, List.length_nil] at hchosen
    exact ⟨opening, us, closing, hopening, hclosing, rfl,
      ⟨hall, hexcess, hstands.left.tail, fun i hi hle hlt => hchosen i hi (by omega) (by omega)⟩,
      without_between hbounds⟩

theorem WrittenAt.ifThen {condition : Expr} {branch : Stmt}
    (hat : (Stmt.ifThen condition branch).WrittenAt whole chosen start ts)
    (h : condition.Derivable) (hb : branch.Derivable) :
    ∃ keyword opening us closing vs, keyword.kind = .ifKeyword ∧ opening.kind = .leftParen ∧
      closing.kind = .rightParen ∧ ts = keyword :: opening :: us ++ closing :: vs ∧
      condition.Writes us ∧ condition.excess us = [] ∧
      branch.WrittenAt whole chosen (start + (condition.width + 3)) vs ∧
      without chosen start ts =
        keyword :: opening :: us ++ closing :: without chosen (start + (condition.width + 3)) vs := by
  obtain ⟨hw, hexcess, hstands, hchosen⟩ := hat
  cases hw with
  | @ifThen keyword opening _ us closing _ vs hkeyword hopening hcondition hclosing hbranch =>
    have hwidth := h.length_eq hcondition
    rw [excess_ifThen hwidth, List.append_eq_nil_iff] at hexcess
    have hmem (i : Nat) (hi : i ∈ chosen) (hle : start ≤ i)
        (hlt : i < start + (keyword :: opening :: us ++ closing :: vs).length) :
        i ∈ branch.semicolonsFrom (start + (condition.width + 3)) := hchosen i hi hle hlt
    have hbounds (i : Nat) (hi : i ∈ chosen) (hle : start ≤ i)
        (hlt : i < start + (keyword :: opening :: us ++ [closing] ++ vs ++ []).length) :
        start + (keyword :: opening :: us ++ [closing]).length ≤ i ∧
          i < start + (keyword :: opening :: us ++ [closing]).length + vs.length := by
      have := branch.bounds_of_mem_semicolonsFrom (hmem i hi hle (by simpa using hlt))
      rw [hb.length_eq hbranch]
      simp only [List.length_append, List.length_cons, List.length_nil]
      omega
    have hthin := without_between hbounds
    simp only [List.length_append, List.length_cons] at hmem
    refine ⟨keyword, opening, us, closing, vs, hkeyword, hopening, hclosing, rfl, hcondition, hexcess.1,
      ⟨hbranch, hexcess.2, ?_, fun i hi hle hlt => hmem i hi (by omega) (by omega)⟩, ?_⟩
    · rw [← hwidth]
      exact StandsAt.branch hstands
    · rw [← hwidth]
      simpa [Nat.add_assoc] using hthin

theorem WrittenAt.ifElse {condition : Expr} {branch alternative : Stmt}
    (hat : (Stmt.ifElse condition branch alternative).WrittenAt whole chosen start ts)
    (h : condition.Derivable) (hb : branch.Derivable) :
    ∃ keyword opening us closing vs keyword' ws, keyword.kind = .ifKeyword ∧
      opening.kind = .leftParen ∧ closing.kind = .rightParen ∧ keyword'.kind = .elseKeyword ∧
      ts = keyword :: opening :: us ++ closing :: vs ++ keyword' :: ws ∧
      condition.Writes us ∧ condition.excess us = [] ∧
      branch.WrittenAt whole chosen (start + (condition.width + 3)) vs ∧
      StandsAt whole (start + (condition.width + 3) + vs.length) (keyword' :: ws) ∧
      alternative.WrittenAt whole chosen (start + (condition.width + 3 + branch.width + 1)) ws ∧
      without chosen start ts =
        keyword :: opening :: us ++ closing :: without chosen (start + (condition.width + 3)) vs ++
          keyword' :: without chosen (start + (condition.width + 3 + branch.width + 1)) ws := by
  obtain ⟨hw, hexcess, hstands, hchosen⟩ := hat
  cases hw with
  | @ifElse keyword opening _ us closing _ vs keyword' _ ws hkeyword hopening hcondition hclosing
      hbranch hkeyword' halternative =>
    have hwidth := h.length_eq hcondition
    have hwidthb := hb.length_eq hbranch
    rw [excess_ifElse hwidth hwidthb, List.append_eq_nil_iff, List.append_eq_nil_iff] at hexcess
    have hmem (i : Nat) (hi : i ∈ chosen) (hle : start ≤ i)
        (hlt : i < start + (keyword :: opening :: us ++ closing :: vs ++ keyword' :: ws).length) :
        i ∈ branch.semicolonsFrom (start + (condition.width + 3)) ∨
          i ∈ alternative.semicolonsFrom (start + (condition.width + 3 + branch.width + 1)) :=
      List.mem_append.1 (hchosen i hi hle hlt)
    simp only [List.length_append, List.length_cons] at hmem
    have hbounds (i : Nat) (hi : i ∈ chosen) (hle : start ≤ i)
        (hlt : i < start + (keyword :: opening :: us ++ [closing] ++ vs ++ [keyword']).length) :
        start + (keyword :: opening :: us ++ [closing]).length ≤ i ∧
          i < start + (keyword :: opening :: us ++ [closing]).length + vs.length := by
      simp only [List.length_append, List.length_cons, List.length_nil] at hlt ⊢
      rcases hmem i hi hle (by omega) with hin | hin
      · have := branch.bounds_of_mem_semicolonsFrom hin
        omega
      · have := alternative.bounds_of_mem_semicolonsFrom hin
        omega
    have hthin := without_append chosen start (keyword :: opening :: us ++ [closing] ++ vs ++ [keyword']) ws
    have hplace : (keyword :: opening :: us ++ [closing] ++ vs ++ [keyword']).length =
        condition.width + 3 + branch.width + 1 := by
      simp only [List.length_append, List.length_cons, List.length_nil]
      omega
    rw [without_between hbounds, hplace] at hthin
    refine ⟨keyword, opening, us, closing, vs, keyword', ws, hkeyword, hopening, hclosing, hkeyword', rfl,
      hcondition, hexcess.1, ⟨hbranch, hexcess.2.1, ?_, fun i hi hle hlt => ?_⟩,
      ?_, ⟨halternative, hexcess.2.2, ?_, fun i hi hle hlt => ?_⟩, ?_⟩
    · rw [← hwidth]
      exact StandsAt.branch hstands.left
    · refine (hmem i hi (by omega) (by omega)).resolve_right fun hin => ?_
      have := alternative.bounds_of_mem_semicolonsFrom hin
      omega
    · have hbranchEnd : start + (condition.width + 3) + vs.length =
          start + (keyword :: opening :: us ++ closing :: vs).length := by
        simp only [List.length_append, List.length_cons]
        omega
      rw [hbranchEnd]
      exact hstands.right
    · rw [← hwidth, ← hwidthb]
      exact StandsAt.alternative hstands
    · refine (hmem i hi (by omega) (by omega)).resolve_left fun hin => ?_
      have := branch.bounds_of_mem_semicolonsFrom hin
      omega
    · rw [← hwidth]
      simpa [Nat.add_assoc, hwidth] using hthin

/-! ## Statements from their parts -/

theorem readsWithout_print {value : Expr} (h : value.Derivable) (hroom : value.nesting ≤ room)
    (deeper : Deeper) :
    ReadsWithout (statement (Expr.parser room) deeper) (.print value) (.print value) setting whole
      chosen := by
  intro start ts hat _
  have hsame := hat.without_eq rfl
  have hexcess := hat.excess_nil
  generalize remaining chosen whole (start + ts.length) = rest
  cases hat.writes with
  | print hkeyword hvalue hsemicolon =>
    rw [excess_print (h.length_eq hvalue)] at hexcess
    have htakes : (statement (Expr.parser room) deeper).Takes setting _ rest (.print value) _ :=
      takes_print hkeyword hsemicolon
        (h.takes_of_room hvalue hroom (endsBefore_of_kind hsemicolon rfl)) deeper
    rw [hexcess] at htakes
    rw [hsame]
    exact htakes

theorem readsWithout_block {item : Parser (Option Stmt)} (hadvances : item.Advances)
    (hmay : MayLeaveOut chosen whole)
    (hss : ∀ s ∈ ss, s.Derivable ∧ ReadsWithout item (some s) s setting whole chosen)
    (expression : Parser Expr) (conditional : Parser Stmt) :
    ReadsWithout (statement expression ⟨conditional, restOfBlock item⟩) (.block ss) (.block ss)
      setting whole chosen := by
  intro start ts hat _
  obtain ⟨opening, us, closing, hopening, hclosing, rfl, hall, hthin⟩ := hat.block fun s hs =>
    (hss s hs).1
  have hbehind : StandsAt whole (start + 1 + us.length) [closing] := hat.stands.tail.right
  have hafter : ∀ t ∈ (whole.drop (start + 1 + us.length)).head?, decide (t.kind = .rightBrace) := by
    simpa [hbehind.head?_drop] using hclosing
  have htakes : (collectUntil (· = .rightBrace) item).Takes setting _ _ ss _ :=
    takes_all_without hadvances hmay hss hall (by simp) hafter
  rw [hmay.remaining_cons hbehind (by rw [hclosing]; decide)] at htakes
  have hplace : start + (opening :: us ++ [closing]).length = start + 1 + us.length + 1 := by
    simp only [List.length_append, List.length_cons, List.length_nil]
    omega
  rw [hthin, hplace]
  refine takes_statement_iff.2 (.inr (.inr (.inl ⟨opening, _, hopening, rfl, ?_⟩)))
  exact takes_restOfBlock_iff.2 ⟨ss, _, closing, rfl, rfl, hclosing, htakes⟩

section conditional

variable {inner : Parser Stmt} {condition : Expr} {branch alternative : Stmt}

theorem readsWithout_ifThen (h : condition.Derivable) (hroom : condition.nesting ≤ room)
    (hb : branch.Derivable) (hbranch : ReadsWithout inner branch branch setting whole chosen)
    (expression : Parser Expr) (block : Parser Stmt) :
    ReadsWithout (statement expression ⟨restOfConditional (Expr.parser room) inner, block⟩)
      (.ifThen condition branch) (.ifThen condition branch) setting whole chosen := by
  intro start ts hat hrest
  obtain ⟨keyword, opening, us, closing, vs, hkeyword, hopening, hclosing, rfl, hcondition, hexcess,
    hatb, hthin⟩ := hat.ifThen h hb
  have hplace : start + (keyword :: opening :: us ++ closing :: vs).length =
      start + (condition.width + 3) + vs.length := by
    simp only [List.length_append, List.length_cons, h.length_eq hcondition]
    omega
  rw [hthin, hplace]
  rw [hplace] at hrest
  have htakes := takes_ifThen hopening hclosing
    (h.takes_of_room hcondition hroom (endsBefore_of_kind hclosing rfl))
    (hbranch _ _ hatb fun _ => hrest rfl) (hrest rfl)
  rw [hexcess] at htakes
  exact takes_statement_iff.2 (.inl ⟨keyword, _, hkeyword, rfl, htakes⟩)

theorem readsWithout_ifElse (h : condition.Derivable) (hroom : condition.nesting ≤ room)
    (hb : branch.Derivable) (hclosed : branch.endsOpen = false) (hmay : MayLeaveOut chosen whole)
    (hbranch : ReadsWithout inner branch branch setting whole chosen)
    (halternative : ReadsWithout inner alternative alternative setting whole chosen)
    (expression : Parser Expr) (block : Parser Stmt) :
    ReadsWithout (statement expression ⟨restOfConditional (Expr.parser room) inner, block⟩)
      (.ifElse condition branch alternative) (.ifElse condition branch alternative) setting whole
      chosen := by
  intro start ts hat hrest
  obtain ⟨keyword, opening, us, closing, vs, keyword', ws, hkeyword, hopening, hclosing, hkeyword', rfl,
    hcondition, hexcess, hatb, helse, hata, hthin⟩ := hat.ifElse h hb
  have hwidth := h.length_eq hcondition
  have hwidthb := hb.length_eq hatb.writes
  have hplace : start + (keyword :: opening :: us ++ closing :: vs ++ keyword' :: ws).length =
      start + (condition.width + 3 + branch.width + 1) + ws.length := by
    simp only [List.length_append, List.length_cons]
    omega
  have hnext : start + (condition.width + 3) + vs.length + 1 =
      start + (condition.width + 3 + branch.width + 1) := by omega
  have hbehind : remaining chosen whole (start + (condition.width + 3) + vs.length) =
      keyword' :: without chosen (start + (condition.width + 3 + branch.width + 1)) ws ++
        remaining chosen whole (start + (condition.width + 3 + branch.width + 1) + ws.length) := by
    rw [hmay.remaining_cons helse (by rw [hkeyword']; decide), hnext, hata.stands.remaining_eq]
    rfl
  rw [hthin, hplace]
  rw [hplace] at hrest
  -- The branch leaves no conditional open, so the `else` behind it is not taken for it.
  have hb := hbranch _ _ hatb fun hopen => absurd hopen (Bool.eq_false_iff.1 hclosed)
  rw [hbehind] at hb
  have htakes := takes_ifElse hopening hclosing
    (h.takes_of_room hcondition hroom (endsBefore_of_kind hclosing rfl)) hb hkeyword'
    (halternative _ _ hata hrest)
  rw [hexcess] at htakes
  rw [semicolonsFrom, missing_append]
  exact takes_statement_iff.2 (.inl ⟨keyword, _, hkeyword, rfl, htakes⟩)

end conditional

/-! ## All statements -/

theorem Derivable.readsWithout (h : s.Derivable) (hform : s.isVariable = false)
    (hroom : s.nesting ≤ room) (hlenient : setting.options.strictSemicolons = false)
    (hmay : MayLeaveOut chosen whole) :
    ReadsWithout (statement (Expr.parser room) (Deeper.ofRoom room)) s s setting whole chosen := by
  induction h generalizing room with
  | expression h => exact readsWithout_expression h hroom hlenient hmay _
  | print h => exact readsWithout_print h hroom _
  | var => contradiction
  | block hss ih =>
    obtain ⟨room, rfl⟩ := Nat.exists_eq_succ_of_ne_zero (Nat.ne_zero_of_lt hroom)
    have hroom := nestingOfAll_le_iff.1 (Nat.le_of_succ_le_succ hroom)
    apply readsWithout_block (advances_of_room room) hmay
    intro s hs
    refine ⟨hss s hs, (hss s hs).readsWithout_declaration (hroom s hs) hmay fun hform => ?_⟩
    exact ih s hs hform (hroom s hs)
  | ifThen h hb hbranch ih =>
    obtain ⟨room, rfl⟩ := Nat.exists_eq_succ_of_ne_zero (Nat.ne_zero_of_lt hroom)
    obtain ⟨hroom, hroomb⟩ := Nat.max_le.1 (Nat.le_of_succ_le_succ hroom)
    exact readsWithout_ifThen h hroom hb (ih hbranch hroomb) _ _
  | ifElse h hb hbranch hclosed ha halternative ih ih' =>
    obtain ⟨room, rfl⟩ := Nat.exists_eq_succ_of_ne_zero (Nat.ne_zero_of_lt hroom)
    obtain ⟨hroom, hrooms⟩ := Nat.max_le.1 (Nat.le_of_succ_le_succ hroom)
    obtain ⟨hroomb, hrooma⟩ := Nat.max_le.1 hrooms
    exact readsWithout_ifElse h hroom hb hclosed hmay (ih hbranch hroomb) (ih' halternative hrooma) _ _

end ScriptSyntax.Stmt
