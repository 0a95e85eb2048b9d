import ScriptSyntax.Proofs.Lexical.Language
/-! # The longest gap at the front of a text -/

namespace ScriptSyntax

variable {gap rest text body : List Char}

/-- Neither a blank nor a comment stands in front of a text. -/
def StartsNoGap (text : List Char) : Prop :=
  (∀ c ∈ text.head?, ¬IsBlank c) ∧ ¬['/', '/'] <+: text

/-- A gap in front of a text is whole: it stops there, and it is only open at the end of the text. -/
structure IsWholeGap (gap rest : List Char) : Prop where
  isOpenGap : IsOpenGap gap
  isGap : rest ≠ [] → IsGap gap
  stops : StartsNoGap rest

theorem startsNoGap_nil : StartsNoGap [] := ⟨by simp, by simp⟩

theorem startsNoGap_cons_iff {c : Char} :
    StartsNoGap (c :: rest) ↔ ¬IsBlank c ∧ ¬(c = '/' ∧ rest.head? = some '/') := by
  unfold StartsNoGap
  cases rest <;> simp [eq_comm]

theorem IsGap.isWholeGap (h : IsGap gap) (hrest : StartsNoGap rest) : IsWholeGap gap rest :=
  ⟨.closed h, fun _ => h, hrest⟩

theorem IsGap.append (h : IsGap gap) (hrest : IsGap rest) : IsGap (gap ++ rest) := by
  induction h with
  | none => exact hrest
  | blank hc _ ih => exact .blank hc ih
  | @comment body more hbody _ ih =>
    have htext : '/' :: '/' :: body ++ '\n' :: more ++ rest =
        '/' :: '/' :: body ++ '\n' :: (more ++ rest) := List.append_assoc _ _ _
    rw [htext]
    exact .comment hbody ih

theorem IsGap.append_isOpenGap (h : IsGap gap) (hrest : IsOpenGap rest) : IsOpenGap (gap ++ rest) := by
  cases hrest with
  | closed hrest => exact .closed (h.append hrest)
  | comment hrest hbody =>
    rw [← List.append_assoc]
    exact .comment (h.append hrest) hbody

/-! ## What is skipped -/

namespace Source

theorem skipGap_of_startsNoGap (location : Location) (h : StartsNoGap text) :
    skipGap ⟨location, text⟩ = ⟨location, text⟩ := by
  cases text with
  | nil => rfl
  | cons c rest =>
    obtain ⟨hblank, hcomment⟩ := startsNoGap_cons_iff.1 h
    have hblank : isBlank c = false := by simpa using fun hc => hblank (isBlank_iff.1 hc)
    show skipGap.go false location (c :: rest) = _
    unfold skipGap.go
    simp [hblank, hcomment]

theorem skipGap_blank {c : Char} (hc : IsBlank c) (location : Location) (rest : List Char) :
    skipGap ⟨location, c :: rest⟩ = skipGap ⟨location.advance c, rest⟩ := by
  show skipGap.go false location (c :: rest) = skipGap.go false _ rest
  conv => lhs; unfold skipGap.go
  simp [isBlank_iff.2 hc]

theorem skipGap_slashes (location : Location) (rest : List Char) :
    skipGap ⟨location, '/' :: '/' :: rest⟩ = skipGap.go true (location.after ['/', '/']) rest := rfl

theorem skipGap_go_line (h : '\n' ∉ body) (location : Location) (rest : List Char) :
    skipGap.go true location (body ++ rest) = skipGap.go true (location.after body) rest := by
  induction body generalizing location with
  | nil => rfl
  | cons c body ih =>
    have hc : (c != '\n') = true := by simpa using Ne.symm (List.ne_of_not_mem_cons h)
    rw [List.cons_append, skipGap.go, if_pos rfl, hc]
    exact ih (List.not_mem_of_not_mem_cons h) _

theorem skipGap_comment (h : '\n' ∉ body) (location : Location) (rest : List Char) :
    skipGap ⟨location, '/' :: '/' :: body ++ '\n' :: rest⟩ =
      skipGap ⟨location.after ('/' :: '/' :: body ++ ['\n']), rest⟩ := by
  rw [List.cons_append, List.cons_append, skipGap_slashes, skipGap_go_line h]
  simp only [List.cons_append, Location.after_cons, Location.after_append]
  rfl

theorem skipGap_append (h : IsGap gap) (location : Location) (rest : List Char) :
    skipGap ⟨location, gap ++ rest⟩ = skipGap ⟨location.after gap, rest⟩ := by
  induction h generalizing location with
  | none => rfl
  | blank hc _ ih => rw [List.cons_append, skipGap_blank hc, ih, Location.after_cons]
  | @comment body more hbody _ ih =>
    have htext : '/' :: '/' :: body ++ '\n' :: more ++ rest =
        '/' :: '/' :: body ++ '\n' :: (more ++ rest) := List.append_assoc _ _ _
    have hgap : '/' :: '/' :: body ++ '\n' :: more = '/' :: '/' :: body ++ ['\n'] ++ more := by simp
    rw [htext, skipGap_comment hbody, ih, hgap, Location.after_append location _ more]

theorem skipGap_open (h : IsOpenGap gap) (location : Location) :
    skipGap ⟨location, gap⟩ = ⟨location.after gap, []⟩ := by
  cases h with
  | closed h =>
    have := skipGap_append h location []
    rwa [List.append_nil] at this
  | @comment gap body h hbody =>
    have hline := skipGap_go_line hbody ((location.after gap).after ['/', '/']) []
    rw [List.append_nil] at hline
    rw [skipGap_append h, skipGap_slashes, hline, ← Location.after_append, ← Location.after_append]
    simp [skipGap.go]

theorem skipGap_of_isWholeGap (h : IsWholeGap gap rest) (location : Location) :
    skipGap ⟨location, gap ++ rest⟩ = ⟨location.after gap, rest⟩ := by
  by_cases hrest : rest = []
  · rw [hrest, List.append_nil]
    exact skipGap_open h.isOpenGap location
  · rw [skipGap_append (h.isGap hrest)]
    exact skipGap_of_startsNoGap _ h.stops

end Source

/-! ## The whole gap -/

theorem IsWholeGap.blank {c : Char} (hc : IsBlank c) (h : IsWholeGap gap rest) :
    IsWholeGap (c :: gap) rest where
  isOpenGap := by
    cases h.isOpenGap with
    | closed hgap => exact .closed (.blank hc hgap)
    | comment hgap hbody => exact .comment (.blank hc hgap) hbody
  isGap hrest := .blank hc (h.isGap hrest)
  stops := h.stops

theorem IsWholeGap.comment (hbody : '\n' ∉ body) (h : IsWholeGap gap rest) :
    IsWholeGap ('/' :: '/' :: body ++ '\n' :: gap) rest where
  isOpenGap := by
    cases h.isOpenGap with
    | closed hgap => exact .closed (.comment hbody hgap)
    | @comment front last hgap hlast =>
      have : '/' :: '/' :: body ++ '\n' :: (front ++ '/' :: '/' :: last) =
          '/' :: '/' :: body ++ '\n' :: front ++ '/' :: '/' :: last := by simp
      rw [this]
      exact .comment (.comment hbody hgap) hlast
  isGap hrest := .comment hbody (h.isGap hrest)
  stops := h.stops

theorem isWholeGap_line (hbody : '\n' ∉ body) : IsWholeGap ('/' :: '/' :: body) [] where
  isOpenGap := .comment .none hbody
  isGap h := absurd rfl h
  stops := startsNoGap_nil

theorem exists_isWholeGap (text : List Char) :
    ∃ gap rest, text = gap ++ rest ∧ IsWholeGap gap rest := by
  induction hlength : text.length using Nat.strongRecOn generalizing text with
  | _ length ih =>
  subst hlength
  cases text with
  | nil => exact ⟨[], [], rfl, IsGap.none.isWholeGap startsNoGap_nil⟩
  | cons c text =>
    by_cases hstops : StartsNoGap (c :: text)
    · exact ⟨[], c :: text, rfl, IsGap.none.isWholeGap hstops⟩
    by_cases hblank : IsBlank c
    · obtain ⟨gap, rest, rfl, hgap⟩ := ih text.length (Nat.lt_succ_self _) text rfl
      exact ⟨c :: gap, rest, rfl, hgap.blank hblank⟩
    obtain ⟨line, hline⟩ : ∃ line, c :: text = '/' :: '/' :: line := by
      have hslashes : c = '/' ∧ text.head? = some '/' := by
        rw [startsNoGap_cons_iff] at hstops
        simpa [hblank] using hstops
      obtain ⟨line, rfl⟩ := List.head?_eq_some_iff.1 hslashes.2
      exact ⟨line, by rw [hslashes.1]⟩
    rw [hline] at ih ⊢
    by_cases hmem : '\n' ∈ line
    · obtain ⟨body, behind, rfl, hbody⟩ := List.eq_append_cons_of_mem hmem
      obtain ⟨gap, rest, rfl, hgap⟩ := ih behind.length (by simp; omega) behind rfl
      exact ⟨_, rest, by simp, hgap.comment hbody⟩
    · exact ⟨_, [], (List.append_nil _).symm, isWholeGap_line hmem⟩

namespace Source

theorem exists_skipGap (s : Source) :
    ∃ gap, s.text = gap ++ s.skipGap.text ∧ s.skipGap.location = s.location.after gap ∧
      IsWholeGap gap s.skipGap.text := by
  obtain ⟨location, text⟩ := s
  obtain ⟨gap, rest, rfl, hgap⟩ := exists_isWholeGap text
  rw [skipGap_of_isWholeGap hgap]
  exact ⟨gap, rfl, rfl, hgap⟩

theorem length_skipGap_go_le (inComment : Bool) (location : Location) (text : List Char) :
    (skipGap.go inComment location text).text.length ≤ text.length := by
  fun_induction skipGap.go inComment location text with
  | case1 => exact Nat.le_refl _
  | case5 => exact Nat.le_refl _
  | _ =>
    rename_i ih
    exact Nat.le_succ_of_le ih

end Source

theorem IsWholeGap.longest (h : IsWholeGap gap rest) {p : List Char} (hp : IsOpenGap p)
    (hbegins : p <+: gap ++ rest) : p.length ≤ gap.length := by
  obtain ⟨more, hmore⟩ := hbegins
  have hskip := Source.skipGap_of_isWholeGap h .start
  -- What is left behind the gap is left behind `p` too, once what is skipped there is skipped.
  have hle : rest.length ≤ more.length := by
    rw [← hmore] at hskip
    have hrest := congrArg Source.text hskip
    dsimp only at hrest
    rw [← hrest]
    cases hp with
    | closed hp =>
      rw [Source.skipGap_append hp]
      exact Source.length_skipGap_go_le false _ _
    | comment hgap hbody =>
      rw [List.append_assoc, Source.skipGap_append hgap, List.cons_append, List.cons_append,
        Source.skipGap_slashes, Source.skipGap_go_line hbody]
      exact Source.length_skipGap_go_le true _ _
  have hlength := congrArg List.length hmore
  rw [List.length_append, List.length_append] at hlength
  omega

end ScriptSyntax
