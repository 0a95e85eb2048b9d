import ScriptSyntax.Proofs.Composition
/-! # Where errors are

A parser tells of errors at tokens that it was given, or at the end of the input once nothing is
left. It is stopped at the first token that it leaves.
-/

namespace ScriptSyntax

variable {α β : Type} {seen : Token → Prop} {setting : Setting} {tokens rest : List Token}

/-- A site at a token of `seen`, or at the end of the input with nothing left. -/
def Site.Among (site : Site) (seen : Token → Prop) (setting : Setting) (rest : List Token) : Prop :=
  (∃ t, seen t ∧ site = .token t) ∨ rest = [] ∧ site = .endOfInput setting.inputEnd

theorem Site.Among.of_suffix {site : Site} (h : site.Among seen setting tokens)
    (hrest : rest <:+ tokens) : site.Among seen setting rest := by
  rcases h with hseen | ⟨rfl, hend⟩
  · exact .inl hseen
  · exact .inr ⟨List.suffix_nil.1 hrest, hend⟩

theorem Setting.site_among (h : ∀ t ∈ tokens, seen t) :
    (setting.site tokens).Among seen setting tokens := by
  cases tokens with
  | nil => exact .inr ⟨rfl, rfl⟩
  | cons t tokens => exact .inl ⟨t, h t (by simp), rfl⟩

/-- An outcome with its errors at such sites, and stopped at the first token left. -/
structure Outcome.Sited (o : Outcome α) (seen : Token → Prop) (setting : Setting) : Prop where
  tells : ∀ e ∈ o.errors, e.site.Among seen setting o.rest
  stops : ∀ e, o.result = .error e → e.site = setting.site o.rest

theorem Outcome.Sited.andThen {o : Outcome α} {next : α → List Token → Outcome β}
    (ho : o.Sited seen setting) (hnext : ∀ a, (next a o.rest).Sited seen setting)
    (hrest : ∀ a, (next a o.rest).rest <:+ o.rest) : (o.andThen next).Sited seen setting := by
  rcases o with ⟨e | a, errors, rest⟩
  · exact ⟨ho.tells, fun e he => ho.stops e (by simpa using he)⟩
  · refine ⟨fun e he => ?_, (hnext a).stops⟩
    rcases List.mem_append.1 he with he | he
    · exact (ho.tells e he).of_suffix (hrest a)
    · exact (hnext a).tells e he

namespace Parser

/-- A parser that is right about where its errors are on every row of tokens of `seen`. -/
def Sited (p : Parser α) (seen : Token → Prop) : Prop :=
  ∀ setting tokens, (∀ t ∈ tokens, seen t) → (p.run setting tokens).Sited seen setting

theorem sited_reportNext (cause : SyntaxCause) : (reportNext cause).Sited seen := by
  intro setting tokens htokens
  refine ⟨fun e he => ?_, by simp⟩
  obtain rfl := List.mem_singleton.1 he
  exact Setting.site_among htokens

theorem sited_onNext {choose : TokenKind → Option (Token → Parser α)} {otherwise : Parser α}
    (hchoose : ∀ kind p, choose kind = some p → ∀ t, seen t → (p t).Sited seen)
    (hotherwise : otherwise.Sited seen) : (onNext choose otherwise).Sited seen := by
  intro setting tokens htokens
  cases tokens with
  | nil => exact hotherwise setting [] htokens
  | cons t tokens =>
    rcases hkind : choose t.kind with _ | p
    · rw [run_onNext_of_eq_none hkind]
      exact hotherwise setting (t :: tokens) htokens
    · rw [run_onNext_of_eq_some hkind]
      have ⟨ht, hmore⟩ := List.forall_mem_cons.1 htokens
      exact hchoose _ _ hkind t ht setting tokens hmore

theorem Sited.bind {p : Parser α} {f : α → Parser β} (hp : p.Sited seen)
    (hf : ∀ a, (f a).Sited seen) : (p >>= f).Sited seen := by
  intro setting tokens htokens
  have hleft : ∀ t ∈ (p.run setting tokens).rest, seen t :=
    fun t ht => htokens t ((p.rest_suffix setting tokens).subset ht)
  exact (hp setting tokens htokens).andThen (fun a => hf a setting _ hleft)
    fun a => (f a).rest_suffix setting _

theorem compositional_sited (seen : Token → Prop) :
    Compositional seen fun _ p => p.Sited seen where
  pure _ _ _ _ := ⟨by simp, by simp⟩
  fail _ _ _ _ := ⟨by simp, by simp⟩
  report t ht cause _ _ _ := ⟨by simpa [Site.Among] using ht, by simp⟩
  reportNext := sited_reportNext
  look h setting tokens htokens := h _ setting tokens htokens
  onNext := sited_onNext
  bind := Sited.bind
  limit h setting tokens htokens := by
    obtain ⟨q, hq, heq⟩ := h tokens.length
    rw [← heq setting tokens (Nat.le_refl _)]
    exact hq setting tokens htokens

/-! ## Going on behind an error -/

theorem Sited.resume {p : Parser α} (hp : p.Sited seen) : p.resume.Sited seen := by
  intro setting tokens htokens
  have hsited := hp setting tokens htokens
  rcases hrun : p.run setting tokens with ⟨e | a, errors, left⟩
  · rw [run_resume_of_error hrun]
    rw [hrun] at hsited
    have hleft : ∀ t ∈ left, seen t := fun t ht => htokens t ((suffix_of_run hrun).subset ht)
    refine ⟨fun e' he' => ?_, by simp⟩
    apply Site.Among.of_suffix _ (dropStatement_suffix left)
    rcases List.mem_append.1 he' with he' | he'
    · exact hsited.tells e' he'
    · obtain rfl := List.mem_singleton.1 he'
      rw [hsited.stops e' rfl]
      exact Setting.site_among hleft
  · rw [run_resume_of_ok hrun]
    rw [hrun] at hsited
    exact ⟨hsited.tells, by simp⟩

end Parser

namespace Stmt

open ScriptSyntax.Parser

theorem sited_semicolon : semicolon.Sited seen := by
  intro setting tokens htokens
  by_cases hnext : ∀ t ∈ tokens.head?, t.kind ≠ .semicolon
  · rw [run_semicolon_of_ne hnext]
    split
    · exact ⟨by simp, by simp⟩
    · refine ⟨fun e he => ?_, by simp⟩
      obtain rfl := List.mem_singleton.1 he
      apply (Setting.site_among htokens).of_suffix
      dsimp only
      split
      · exact List.suffix_rfl
      · exact dropStatement_suffix tokens
  · cases tokens with
    | nil => simp at hnext
    | cons t tokens =>
      rw [run_semicolon_of_eq (by simpa using hnext)]
      exact ⟨by simp, by simp⟩

theorem compositional_sited (seen : Token → Prop) :
    Compositional seen fun _ p => p.Sited seen where
  toCompositional := Parser.compositional_sited seen
  semicolon := sited_semicolon
  resume := Sited.resume

theorem sited_of_room (room : Nat) (seen : Token → Prop) : (parser room).Sited seen :=
  has_of_room (compositional_sited seen) room

end Stmt

end ScriptSyntax
