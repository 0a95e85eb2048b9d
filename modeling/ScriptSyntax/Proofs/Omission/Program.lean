import ScriptSyntax.Proofs.Concatenation
import ScriptSyntax.Proofs.Omission.Stmt
/-! # Programs that lack semicolons

Without the strict options, a program is read as the same without some semicolons of its expression
statements, as long as each of them stood where a statement may end without one.
-/

namespace ScriptSyntax.TokenStream

open ScriptSyntax.Parser
open ScriptSyntax.Stmt (semicolonsOfAllFrom missing)

variable {ts behind : List Token} {eof : Token} {chosen places : List Nat}

/-! ## The next token -/

theorem exists_endOfInput {row : List Token} (h : ∃ t ∈ row, t.kind = .endOfInput) :
    ∃ ts eof behind, row = ts ++ eof :: behind ∧ eof.kind = .endOfInput ∧
      ∀ t ∈ ts, t.kind ≠ .endOfInput := by
  obtain ⟨eof, heof⟩ := Option.isSome_iff_exists.1 (List.find?_isSome.2 (by simpa using h) :
    (row.find? (·.kind == .endOfInput)).isSome)
  obtain ⟨hkind, ts, behind, rfl, hts⟩ := List.find?_eq_some_iff_append.1 heof
  exact ⟨ts, eof, behind, rfl, by simpa using hkind, by simpa using hts⟩

theorem getD_append_cons_of_lt {i : Nat} (hi : i < ts.length) (default : Token) :
    (ts ++ eof :: behind).getD i default = ts[i] := by
  rw [List.getD_eq_getElem?_getD, List.getElem?_append_left hi, List.getElem?_eq_getElem hi]
  rfl

theorem site_drop (options : Options) (hts : ∀ t ∈ ts, t.kind ≠ .endOfInput)
    (heof : eof.kind = .endOfInput) {i : Nat} (hi : i ≤ ts.length) (default : Token) :
    (Setting.mk options eof.location).site (ts.drop i) =
      .ofToken ((ts ++ eof :: behind).getD i default) := by
  rcases Nat.lt_or_eq_of_le hi with hlt | rfl
  · rw [getD_append_cons_of_lt hlt, List.drop_eq_getElem_cons hlt, Site.ofToken,
      if_neg (hts _ (List.getElem_mem hlt))]
    rfl
  · simp [Setting.site, Site.ofToken, heof]

theorem mayLeaveOut_of_next (hts : ∀ t ∈ ts, t.kind ≠ .endOfInput)
    (hkind : Stmt.AreSemicolons ts chosen) (default : Token)
    (hnext : ∀ i ∈ chosen, ((ts ++ eof :: behind).getD (i + 1) default).kind.startsStatement = true ∨
      ((ts ++ eof :: behind).getD (i + 1) default).kind = .rightBrace ∨
      ((ts ++ eof :: behind).getD (i + 1) default).kind = .endOfInput) :
    MayLeaveOut chosen ts := by
  intro i hi
  obtain ⟨semicolon, more, hdrop, hsemicolon⟩ := hkind i hi
  refine ⟨semicolon, more, hdrop, hsemicolon, ?_⟩
  have hmore : ts.drop (i + 1) = more := by
    rw [← List.tail_drop, hdrop, List.tail_cons]
  by_cases hlt : i + 1 < ts.length
  · have hboundary := hnext i hi
    rw [getD_append_cons_of_lt hlt] at hboundary
    rw [← hmore, List.drop_eq_getElem_cons hlt]
    have hend := hts _ (List.getElem_mem hlt)
    simp only [atStatementEnd, Bool.or_eq_true, decide_eq_true_iff]
    rcases hboundary with hstarts | hbrace | hkind
    · exact .inr hstarts
    · exact .inl hbrace
    · exact absurd hkind hend
  · rw [← hmore, List.drop_eq_nil_of_le (by omega)]
    rfl

/-! ## The places left out -/

theorem filter_mem_eq (hplaces : places.Pairwise (· < ·)) (hchosen : chosen.Pairwise (· < ·))
    (hsub : ∀ i ∈ chosen, i ∈ places) : places.filter (· ∈ chosen) = chosen := by
  have hnodup {l : List Nat} (h : l.Pairwise (· < ·)) : l.Nodup := h.imp Nat.ne_of_lt
  have hfiltered := hplaces.filter (· ∈ chosen)
  have hperm : (places.filter (· ∈ chosen)).Perm chosen := by
    rw [List.perm_ext_iff_of_nodup (hnodup hfiltered) (hnodup hchosen)]
    intro i
    simp only [List.mem_filter, decide_eq_true_iff]
    exact ⟨fun h => h.2, fun h => ⟨hsub i h, h⟩⟩
  refine hperm.eq_of_pairwise (fun i j _ _ hij hji => ?_) hfiltered hchosen
  omega

/-! ## Programs -/

theorem program_without {p : List Stmt} {setting : Setting} (hderivable : ∀ s ∈ p, s.Derivable)
    (hnesting : ∀ s ∈ p, s.nesting ≤ maxNesting) (hw : Stmt.WritesAll p ts)
    (hexcess : Stmt.excessOfAll p ts = []) (hlenient : setting.options.strictSemicolons = false)
    (hmay : MayLeaveOut chosen ts) (hchosen : ∀ i ∈ chosen, i ∈ semicolonsOfAllFrom 0 p) :
    program.run setting (without chosen 0 ts) =
      ⟨.ok p, missing setting ts chosen (semicolonsOfAllFrom 0 p), []⟩ := by
  have hat : Stmt.AllWrittenAt p ts chosen 0 ts :=
    ⟨hw, hexcess, List.prefix_rfl, fun i hi _ _ => hchosen i hi⟩
  have hread : ∀ s ∈ p, s.Derivable ∧
      Stmt.ReadsWithout (Stmt.parser maxNesting) (some s) s setting ts chosen := fun s hs =>
    ⟨hderivable s hs, (hderivable s hs).readsWithout_declaration (hnesting s hs) hmay fun hform =>
      (hderivable s hs).readsWithout hform (hnesting s hs) hlenient hmay⟩
  have htakes : program.Takes setting _ _ p _ :=
    Stmt.takes_all_without (Stmt.advances_of_room maxNesting) hmay hread hat (by simp) (by simp)
  have hnone : remaining chosen ts (0 + ts.length) = [] := by simp [remaining, without]
  rw [hnone] at htakes
  exact takes_to_end_iff.1 htakes

theorem readProgram_without {p : List Stmt} {options : Options}
    (hts : ∀ t ∈ ts, t.kind ≠ .endOfInput) (heof : eof.kind = .endOfInput) (default : Token)
    (hread : ((ofTokens (ts ++ eof :: behind)).readProgram options).1 = ⟨p, []⟩)
    (hsorted : chosen.Pairwise (· < ·)) (hchosen : ∀ i ∈ chosen, i ∈ semicolonsOfAllFrom 0 p)
    (hnext : ∀ i ∈ chosen, ((ts ++ eof :: behind).getD (i + 1) default).kind.startsStatement = true ∨
      ((ts ++ eof :: behind).getD (i + 1) default).kind = .rightBrace ∨
      ((ts ++ eof :: behind).getD (i + 1) default).kind = .endOfInput) :
    (∀ i ∈ semicolonsOfAllFrom 0 p, ((ts ++ eof :: behind).getD i default).kind = .semicolon) ∧
      ((ofTokens (without chosen 0 (ts ++ eof :: behind))).readProgram {}).1 =
        ⟨p, chosen.map fun i =>
          ⟨.ofToken ((ts ++ eof :: behind).getD (i + 1) default), .noSemicolonAfterValue⟩⟩ := by
  rw [ofTokens_append_cons hts heof] at hread
  have hmade : Stmt.AllMadeOf p (maxNesting + 1) ts [] := by
    have := readProgram_madeOf ⟨ts, eof.location⟩ options
    rwa [hread] at this
  have hexcess : Stmt.excessOfAll p ts = [] := by
    have := excess_eq_nil (congrArg Reading.errors hread)
    rwa [hread] at this
  have hw := hmade.write rfl
  have hkind : Stmt.AreSemicolons ts (semicolonsOfAllFrom 0 p) :=
    hw.areSemicolons (fun s hs =>
      ⟨hmade.derivable s hs, fun _ _ => (hmade.derivable s hs).areSemicolons⟩) List.prefix_rfl
  have hmay := mayLeaveOut_of_next hts (fun i hi => hkind i (hchosen i hi)) default hnext
  have hlt (i : Nat) (hi : i ∈ semicolonsOfAllFrom 0 p) : i < ts.length := by
    obtain ⟨t, more, hdrop, -⟩ := hkind i hi
    have := congrArg List.length hdrop
    simp only [List.length_drop, List.length_cons] at this
    omega
  constructor
  · intro i hi
    obtain ⟨t, more, hdrop, hsemicolon⟩ := hkind i hi
    rw [List.drop_eq_getElem_cons (hlt i hi)] at hdrop
    obtain ⟨rfl, -⟩ := List.cons.inj hdrop
    rw [getD_append_cons_of_lt (hlt i hi)]
    exact hsemicolon
  · have hkept : without chosen (0 + ts.length) (eof :: behind) = eof :: behind := by
      apply without_eq_self
      intro i hi hle
      have := hlt i (hchosen i hi)
      omega
    have hthin : ∀ t ∈ without chosen 0 ts, t.kind ≠ .endOfInput :=
      fun t ht => hts t ((without_sublist chosen 0 ts).subset ht)
    have hrun : program.run ⟨{}, eof.location⟩ (without chosen 0 ts) = _ :=
      program_without hmade.derivable (fun s hs => Nat.le_of_lt_succ (hmade.nesting_lt s hs)) hw hexcess
        rfl hmay hchosen
    have herrors : missing ⟨{}, eof.location⟩ ts chosen (semicolonsOfAllFrom 0 p) =
        chosen.map fun i =>
          ⟨.ofToken ((ts ++ eof :: behind).getD (i + 1) default), .noSemicolonAfterValue⟩ := by
      unfold missing
      rw [filter_mem_eq (Stmt.pairwise_semicolonsOfAllFrom p 0) hsorted hchosen]
      apply List.map_congr_left
      intro i hi
      rw [site_drop {} hts heof (hlt i (hchosen i hi))]
    rw [herrors] at hrun
    rw [without_append, hkept, ofTokens_append_cons hthin heof, readProgram_of_run hrun]

/-- A program that is read without an error is read as the same without some semicolons of its expression
statements, if each of them stands in front of a keyword that begins a statement, of a closing brace
or of the end of the input. The only errors tell of these semicolons, one of each, in their order. -/
theorem readProgram_without_semicolons (tokens : List Token) (eof : Token) (options : Options)
    (chosen : List Nat) (heof : eof.kind = .endOfInput)
    (hclean : ((ofTokens (tokens ++ [eof])).readProgram options).1.errors = [])
    (hsorted : chosen.Pairwise (· < ·))
    (hchosen : ∀ i ∈ chosen, i ∈ semicolonsOfAllFrom 0
      ((ofTokens (tokens ++ [eof])).readProgram options).1.value)
    (hnext : ∀ i ∈ chosen, ((tokens ++ [eof]).getD (i + 1) eof).kind.startsStatement = true ∨
      ((tokens ++ [eof]).getD (i + 1) eof).kind = .rightBrace ∨
      ((tokens ++ [eof]).getD (i + 1) eof).kind = .endOfInput) :
    let whole := ((ofTokens (tokens ++ [eof])).readProgram options).1
    let thin := ((ofTokens (without chosen 0 (tokens ++ [eof]))).readProgram {}).1
    (∀ i ∈ semicolonsOfAllFrom 0 whole.value, ((tokens ++ [eof]).getD i eof).kind = .semicolon) ∧
      thin.value = whole.value ∧
      thin.errors = (chosen.map fun i =>
        ⟨.ofToken ((tokens ++ [eof]).getD (i + 1) eof), .noSemicolonAfterValue⟩) ∧
      SyntaxCause.noSemicolonAfterValue.message = "Expect ';' after value." := by
  intro whole thin
  have hended : ∃ t ∈ tokens ++ [eof], t.kind = .endOfInput := ⟨eof, by simp, heof⟩
  obtain ⟨ts, first, behind, hrow, hfirst, hts⟩ := exists_endOfInput hended
  obtain ⟨p, hread⟩ :
      ∃ p, ((ofTokens (tokens ++ [eof])).readProgram options).1 = ⟨p, []⟩ := ⟨_, by rw [← hclean]⟩
  unfold whole thin
  rw [hread] at hchosen ⊢
  rw [hrow] at hread hnext ⊢
  obtain ⟨hkind, hthin⟩ := readProgram_without hts hfirst eof hread hsorted hchosen hnext
  rw [hthin]
  exact ⟨hkind, rfl, rfl, rfl⟩

/-- A name in a block, and a number behind it. -/
def nameAndNumber : List Token :=
  Token.ofKinds [.leftBrace, .identifier, .semicolon, .rightBrace, .number, .semicolon]

def nameAndNumberThin : List Token :=
  Token.ofKinds [.leftBrace, .identifier, .rightBrace, .number, .endOfInput]

theorem readProgram_without_semicolons_of_name_and_number :
    let whole := ((ofTokens (nameAndNumber ++ [.ofKind .endOfInput])).readProgram .strict).1
    let thin := ((ofTokens (without [2, 5] 0 (nameAndNumber ++ [.ofKind .endOfInput]))).readProgram {}).1
    without [2, 5] 0 (nameAndNumber ++ [.ofKind .endOfInput]) = nameAndNumberThin ∧
      whole.errors = [] ∧ whole.value.length = 2 ∧ thin.value = whole.value ∧
      thin.errors = [⟨.token (.ofKind .rightBrace), .noSemicolonAfterValue⟩,
        ⟨.endOfInput .nowhere, .noSemicolonAfterValue⟩] := by
  intro whole thin
  have hplaces : semicolonsOfAllFrom 0 whole.value = [2, 5] := by decide +kernel
  have hchosen : ∀ i ∈ [2, 5], i ∈ semicolonsOfAllFrom 0 whole.value := by
    rw [hplaces]
    exact fun i hi => hi
  have h := readProgram_without_semicolons nameAndNumber (.ofKind .endOfInput) .strict [2, 5] rfl rfl
    (by decide) hchosen (by decide)
  exact ⟨rfl, rfl, rfl, h.2.1, h.2.2.1⟩

end ScriptSyntax.TokenStream
