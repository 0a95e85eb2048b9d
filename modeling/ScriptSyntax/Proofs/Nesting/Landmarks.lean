import ScriptSyntax.Proofs.Omission.Places
/-! # Where the limits matter

The tokens that open a level and the arguments that are one too many, with their places in a row of
tokens and in the order in which a reader comes to them.
-/

namespace ScriptSyntax

/-- Whether a token of a kind can open a level. -/
def opensLevel : TokenKind → Bool
  | .leftParen | .comma | .bang | .minus | .equal | .leftBrace | .ifKeyword => true
  | _ => false

inductive Landmark where
  /-- A token that opens a level, which starts right behind it. -/
  | opening (level place : Nat)
  /-- The first token of an argument that is one too many. -/
  | surplus (place : Nat)
deriving DecidableEq, Repr

namespace Landmark

variable {start mid stop level place : Nat} {marks marks' : List Landmark}

/-- When a reader comes to it. At a token that is both, the surplus comes first. -/
def order : Landmark → Nat
  | opening _ place => 2 * (place + 1) + 1
  | surplus place => 2 * place

/-- Landmarks one behind the other, at tokens behind `start` and in front of `stop`. -/
structure InOrder (start stop : Nat) (marks : List Landmark) : Prop where
  sorted : marks.Pairwise (·.order < ·.order)
  inside : ∀ m ∈ marks, 2 * start + 1 < m.order ∧ m.order < 2 * stop

namespace InOrder

theorem nil : InOrder start stop [] := ⟨.nil, by simp⟩

theorem mono {start' stop' : Nat} (h : InOrder start stop marks) (hstart : start' ≤ start)
    (hstop : stop ≤ stop') : InOrder start' stop' marks where
  sorted := h.sorted
  inside m hm := by
    have := h.inside m hm
    omega

theorem append (h : InOrder start mid marks) {start' : Nat} (h' : InOrder start' stop marks')
    (hmid : mid ≤ start' + 1) (hstart : start ≤ start') (hstop : mid ≤ stop) :
    InOrder start stop (marks ++ marks') where
  sorted := List.pairwise_append.2 ⟨h.sorted, h'.sorted, fun m hm m' hm' => by
    have hm := h.inside m hm
    have hm' := h'.inside m' hm'
    omega⟩
  inside m hm := by
    rcases List.mem_append.1 hm with hm | hm
    · have := h.inside m hm
      omega
    · have := h'.inside m hm
      omega

theorem opening (h : InOrder (place + 1) stop marks) (level : Nat) (hstop : place + 1 < stop) :
    InOrder place stop (.opening level place :: marks) where
  sorted := List.pairwise_cons.2 ⟨fun m hm => (h.inside m hm).1, h.sorted⟩
  inside := by
    refine List.forall_mem_cons.2 ⟨?_, (h.mono (Nat.le_succ place) (Nat.le_refl stop)).inside⟩
    simp only [order]
    omega

theorem argument (h : InOrder (place + 1) stop marks) (level : Nat) (hstop : place + 1 < stop)
    (full : Prop) [Decidable full] :
    InOrder place stop
      ((if full then [.surplus (place + 1)] else []) ++ .opening level place :: marks) := by
  have hopening := h.opening level hstop
  split
  · refine ⟨List.pairwise_cons.2 ⟨?_, hopening.sorted⟩, ?_⟩
    · refine List.forall_mem_cons.2 ⟨by simp only [order]; omega, fun m hm => ?_⟩
      have := h.inside m hm
      show 2 * (place + 1) < m.order
      omega
    · refine List.forall_mem_cons.2 ⟨?_, hopening.inside⟩
      simp only [order]
      omega
  · exact hopening

end InOrder

/-- A landmark is about tokens that the row has, a level about two of them. -/
def StandsIn (row : List Token) : Landmark → Prop
  | opening _ place =>
    (∃ t, row[place]? = some t ∧ opensLevel t.kind = true) ∧ ∃ next, row[place + 1]? = some next
  | surplus place => ∃ t, row[place]? = some t

variable {row ts : List Token} {t : Token}

theorem standsIn_opening (hat : StandsAt row place (t :: ts)) (ht : opensLevel t.kind = true)
    (hne : ts ≠ []) (level : Nat) : (opening level place).StandsIn row := by
  obtain ⟨next, more, rfl⟩ := List.exists_cons_of_ne_nil hne
  exact ⟨⟨t, hat.getElem?, ht⟩, next, hat.tail.getElem?⟩

/-- Behind a token that opens a level, each level up to some depth is opened if those further in
are. -/
theorem exists_opening_cons {k : Nat} (hk : level < k)
    (h : level + 1 < k → ∃ q, opening k q ∈ marks) (place : Nat) :
    ∃ q, opening k q ∈ opening (level + 1) place :: marks := by
  rcases Nat.eq_or_lt_of_le hk with rfl | hlt
  · exact ⟨place, List.mem_cons_self⟩
  · obtain ⟨q, hq⟩ := h hlt
    exact ⟨q, List.mem_cons_of_mem _ hq⟩

end Landmark

namespace Expr

/-! ## Expressions -/

mutual

/-- The landmarks in an expression that stands at a level and starts at a place. -/
def landmarks (level place : Nat) : Expr → List Landmark
  | binary left _ right | logical left _ right =>
    left.landmarks level place ++ right.landmarks level (place + left.width + 1)
  | grouping inner => .opening (level + 1) place :: inner.landmarks (level + 1) (place + 1)
  | unary _ operand => .opening (level + 1) place :: operand.landmarks (level + 1) (place + 1)
  | literal _ | reference _ => []
  | assignment _ value =>
    .opening (level + 1) (place + 1) :: value.landmarks (level + 1) (place + 2)
  | call callee arguments _ =>
    callee.landmarks level place ++
      landmarksOfArguments level (place + callee.width) 0 arguments

/-- The landmarks in arguments behind `earlier` others, the first of them behind the parenthesis or
the comma at a place. -/
def landmarksOfArguments (level place earlier : Nat) : List Expr → List Landmark
  | [] => []
  | e :: es =>
    (if earlier = maxArguments then [.surplus (place + 1)] else []) ++
      .opening (level + 1) place ::
        (e.landmarks (level + 1) (place + 1) ++
          landmarksOfArguments level (place + 1 + e.width) (earlier + 1) es)

end

theorem landmarks_combine (precedence : Precedence) (left : Expr) (operator : Token) (right : Expr)
    (level place : Nat) :
    (precedence.combine left operator right).landmarks level place =
      left.landmarks level place ++ right.landmarks level (place + left.width + 1) := by
  cases precedence <;> rfl

theorem width_pos : ∀ e : Expr, 0 < e.width
  | binary _ _ _ | logical _ _ _ | grouping _ | unary _ _ | literal _ | reference _
  | assignment _ _ | call _ _ _ => by simp only [width]; omega

mutual

theorem landmarks_inOrder : ∀ (e : Expr) (level place : Nat),
    Landmark.InOrder place (place + e.width) (e.landmarks level place)
  | binary left _ right, level, place | logical left _ right, level, place => by
    have hleft := left.landmarks_inOrder level place
    have hright := right.landmarks_inOrder level (place + left.width + 1)
    simp only [width]
    exact (hleft.append hright (by omega) (by omega) (by omega)).mono (Nat.le_refl _) (by omega)
  | grouping inner, level, place => by
    have hinner := inner.landmarks_inOrder (level + 1) (place + 1)
    have := inner.width_pos
    simp only [width]
    exact (hinner.opening (level + 1) (by omega)).mono (Nat.le_refl _) (by omega)
  | unary _ operand, level, place => by
    have hoperand := operand.landmarks_inOrder (level + 1) (place + 1)
    have := operand.width_pos
    simp only [width]
    exact (hoperand.opening (level + 1) (by omega)).mono (Nat.le_refl _) (by omega)
  | literal _, _, _ | reference _, _, _ => .nil
  | assignment _ value, level, place => by
    have hvalue := value.landmarks_inOrder (level + 1) (place + 2)
    have := value.width_pos
    simp only [width]
    exact (hvalue.opening (level + 1) (by omega)).mono (by omega) (by omega)
  | call callee arguments _, level, place => by
    have hcallee := callee.landmarks_inOrder level place
    have harguments := landmarksOfArguments_inOrder arguments level (place + callee.width) 0
    simp only [width]
    exact (hcallee.append harguments (by omega) (by omega) (by omega)).mono (Nat.le_refl _) (by omega)

theorem landmarksOfArguments_inOrder : ∀ (es : List Expr) (level place earlier : Nat),
    Landmark.InOrder place (place + 1 + widthOfArguments es)
      (landmarksOfArguments level place earlier es)
  | [], _, _, _ => .nil
  | [e], level, place, earlier => by
    have he := e.landmarks_inOrder (level + 1) (place + 1)
    have := e.width_pos
    unfold landmarksOfArguments landmarksOfArguments
    rw [List.append_nil]
    exact he.argument (level + 1) (by omega) _
  | e :: e' :: es, level, place, earlier => by
    have he := e.landmarks_inOrder (level + 1) (place + 1)
    have hothers := landmarksOfArguments_inOrder (e' :: es) level (place + 1 + e.width) (earlier + 1)
    have := e.width_pos
    simp only [widthOfArguments]
    unfold landmarksOfArguments
    have hboth := he.append hothers (by omega) (by omega) (by omega)
    exact (hboth.argument (level + 1) (by omega) _).mono (Nat.le_refl _) (by omega)

end

mutual

theorem exists_opening : ∀ (e : Expr) {level k : Nat} (place : Nat), level < k →
    k ≤ level + e.nesting → ∃ q, .opening k q ∈ e.landmarks level place
  | binary left _ right, level, k, place, hlt, hle
  | logical left _ right, level, k, place, hlt, hle => by
    simp only [nesting] at hle
    by_cases hleft : k ≤ level + left.nesting
    · obtain ⟨q, hq⟩ := left.exists_opening place hlt hleft
      exact ⟨q, List.mem_append_left _ hq⟩
    · obtain ⟨q, hq⟩ := right.exists_opening (place + left.width + 1) hlt (by omega)
      exact ⟨q, List.mem_append_right _ hq⟩
  | grouping inner, level, k, place, hlt, hle => by
    simp only [nesting] at hle
    exact Landmark.exists_opening_cons hlt
      (fun hlt => inner.exists_opening (place + 1) hlt (by omega)) place
  | unary _ operand, level, k, place, hlt, hle => by
    simp only [nesting] at hle
    exact Landmark.exists_opening_cons hlt
      (fun hlt => operand.exists_opening (place + 1) hlt (by omega)) place
  | literal _, level, k, _, hlt, hle | reference _, level, k, _, hlt, hle => by
    simp only [nesting] at hle
    omega
  | assignment _ value, level, k, place, hlt, hle => by
    simp only [nesting] at hle
    exact Landmark.exists_opening_cons hlt
      (fun hlt => value.exists_opening (place + 2) hlt (by omega)) (place + 1)
  | call callee arguments _, level, k, place, hlt, hle => by
    simp only [nesting] at hle
    by_cases hcallee : k ≤ level + callee.nesting
    · obtain ⟨q, hq⟩ := callee.exists_opening place hlt hcallee
      exact ⟨q, List.mem_append_left _ hq⟩
    · obtain ⟨q, hq⟩ :=
        exists_openingOfArguments arguments (place + callee.width) 0 hlt (by omega)
      exact ⟨q, List.mem_append_right _ hq⟩

theorem exists_openingOfArguments : ∀ (es : List Expr) {level k : Nat} (place earlier : Nat),
    level < k → k ≤ level + nestingOfArguments es →
    ∃ q, .opening k q ∈ landmarksOfArguments level place earlier es
  | [], level, k, _, _, hlt, hle => by
    simp only [nestingOfArguments] at hle
    omega
  | e :: es, level, k, place, earlier, hlt, hle => by
    simp only [nestingOfArguments] at hle
    unfold landmarksOfArguments
    by_cases he : k ≤ level + (e.nesting + 1)
    · obtain ⟨q, hq⟩ := Landmark.exists_opening_cons hlt
        (fun hlt => e.exists_opening (place + 1) hlt (by omega)) place
      exact ⟨q, List.mem_append_right _ (List.mem_append_left _ hq)⟩
    · obtain ⟨q, hq⟩ :=
        exists_openingOfArguments es (place + 1 + e.width) (earlier + 1) hlt (by omega)
      exact ⟨q, List.mem_append_right _ (List.mem_cons_of_mem _ (List.mem_append_right _ hq))⟩

end

variable {e : Expr} {es : List Expr} {row ts : List Token} {place : Nat}

theorem Derivable.ne_nil (h : e.Derivable) (hw : e.Writes ts) : ts ≠ [] := by
  obtain ⟨t, more, rfl, -⟩ := h.exists_first hw
  exact List.cons_ne_nil t more

theorem WritesArguments.landmarks_standIn {opening : Token}
    (hes : ∀ e ∈ es, e.Derivable ∧ ∀ {ts level place}, e.Writes ts → StandsAt row place ts →
      ∀ m ∈ e.landmarks level place, m.StandsIn row)
    (hw : WritesArguments es ts) (hat : StandsAt row place (opening :: ts))
    (hopening : opensLevel opening.kind = true) (level earlier : Nat) :
    ∀ m ∈ landmarksOfArguments level place earlier es, m.StandsIn row := by
  induction es generalizing ts place opening earlier with
  | nil => simp [landmarksOfArguments]
  | cons e es ih =>
    obtain ⟨hderivable, he⟩ := hes e (by simp)
    -- The first argument, and what stands behind it.
    have hfirst : ∃ us vs, ts = us ++ vs ∧ e.Writes us ∧
        ∀ m ∈ landmarksOfArguments level (place + 1 + e.width) (earlier + 1) es, m.StandsIn row := by
      cases hw with
      | one hw => exact ⟨ts, [], by simp, hw, by simp [landmarksOfArguments]⟩
      | @more _ _ _ comma us vs hw hcomma hothers =>
        have hcommaAt : StandsAt row (place + 1 + e.width) (comma :: vs) := by
          rw [← hderivable.length_eq hw]
          exact hat.tail.right
        exact ⟨us, comma :: vs, rfl, hw, ih (fun e he => hes e (by simp [he])) hothers hcommaAt
          (by rw [hcomma]; rfl) _⟩
    obtain ⟨us, vs, rfl, hw, hothers⟩ := hfirst
    obtain ⟨t, more, rfl, -⟩ := hderivable.exists_first hw
    have hopened : (Landmark.opening (level + 1) place).StandsIn row :=
      Landmark.standsIn_opening hat hopening (by simp) _
    unfold landmarksOfArguments
    simp only [List.mem_append, List.mem_cons]
    rintro m (hm | rfl | hm | hm)
    · split at hm
      · obtain rfl := List.mem_singleton.1 hm
        exact ⟨t, hat.tail.getElem?⟩
      · contradiction
    · exact hopened
    · exact he hw hat.tail.left m hm
    · exact hothers m hm

theorem Derivable.landmarks_standIn (h : e.Derivable) (hw : e.Writes ts) (hat : StandsAt row place ts)
    (level : Nat) : ∀ m ∈ e.landmarks level place, m.StandsIn row := by
  induction h using Derivable.byOperation generalizing ts place level with
  | operation _ _ _ hdl _ ihl ihr =>
    obtain ⟨ts, us, rfl, hl, hr⟩ := Precedence.writes_combine_iff.1 hw
    rw [landmarks_combine, ← hdl.length_eq hl]
    intro m hm
    rcases List.mem_append.1 hm with hm | hm
    · exact ihl hl hat.left level m hm
    · exact ihr hr hat.behind level m hm
  | grouping h ih =>
    cases hw with
    | grouping hopening hinner _ =>
      refine List.forall_mem_cons.2 ⟨?_, ih hinner hat.tail.left _⟩
      exact Landmark.standsIn_opening hat (by rw [hopening]; rfl) (by simp) _
  | unary hkind _ h ih =>
    cases hw with
    | unary hoperand =>
      refine List.forall_mem_cons.2 ⟨?_, ih hoperand hat.tail _⟩
      refine Landmark.standsIn_opening hat ?_ (h.ne_nil hoperand) _
      rcases hkind with hkind | hkind <;> rw [hkind] <;> rfl
  | literal | reference => simp [landmarks]
  | assignment _ h ih =>
    cases hw with
    | assignment hequals hvalue =>
      refine List.forall_mem_cons.2 ⟨?_, ih hvalue hat.tail.tail _⟩
      exact Landmark.standsIn_opening hat.tail (by rw [hequals]; rfl) (h.ne_nil hvalue) _
  | call _ _ h hes ihc ihes =>
    cases hw with
    | call hcallee hopening hargs =>
      rw [List.append_assoc] at hat
      intro m hm
      rcases List.mem_append.1 hm with hm | hm
      · exact ihc hcallee hat.left level m hm
      · rw [← h.length_eq hcallee] at hm
        exact hargs.landmarks_standIn (fun e he => ⟨hes e he, fun hw hat => ihes e he hw hat _⟩)
          (StandsAt.left hat.right) (by rw [hopening]; rfl) level 0 m hm

end Expr

namespace Stmt

/-! ## Statements -/

mutual

/-- The landmarks in a statement that stands at a level and starts at a place. -/
def landmarks (level place : Nat) : Stmt → List Landmark
  | expression value => value.landmarks level place
  | print value => value.landmarks level (place + 1)
  | var _ none => []
  | var _ (some value) => value.landmarks level (place + 3)
  | block statements => .opening (level + 1) place :: landmarksOfAll (level + 1) (place + 1) statements
  | ifThen condition branch =>
    .opening (level + 1) place ::
      (condition.landmarks (level + 1) (place + 2) ++
        branch.landmarks (level + 1) (place + (condition.width + 3)))
  | ifElse condition branch alternative =>
    .opening (level + 1) place ::
      (condition.landmarks (level + 1) (place + 2) ++
        (branch.landmarks (level + 1) (place + (condition.width + 3)) ++
          alternative.landmarks (level + 1) (place + (condition.width + 3 + branch.width + 1))))

def landmarksOfAll (level place : Nat) : List Stmt → List Landmark
  | [] => []
  | s :: ss => s.landmarks level place ++ landmarksOfAll level (place + s.width) ss

end

mutual

theorem landmarks_inOrder : ∀ (s : Stmt) (level place : Nat),
    Landmark.InOrder place (place + s.width) (s.landmarks level place)
  | expression value, level, place => by
    simp only [width]
    exact (value.landmarks_inOrder level place).mono (Nat.le_refl _) (by omega)
  | print value, level, place => by
    simp only [width]
    exact (value.landmarks_inOrder level (place + 1)).mono (by omega) (by omega)
  | var _ none, _, _ => .nil
  | var _ (some value), level, place => by
    simp only [width]
    exact (value.landmarks_inOrder level (place + 3)).mono (by omega) (by omega)
  | block statements, level, place => by
    have hall := landmarksOfAll_inOrder statements (level + 1) (place + 1)
    simp only [width]
    exact (hall.mono (Nat.le_refl _) (by omega)).opening (level + 1) (by omega)
  | ifThen condition branch, level, place => by
    have hcondition := condition.landmarks_inOrder (level + 1) (place + 2)
    have hbranch := branch.landmarks_inOrder (level + 1) (place + (condition.width + 3))
    simp only [width]
    have hboth := hcondition.append hbranch (by omega) (by omega) (by omega)
    exact (hboth.mono (by omega) (by omega)).opening (level + 1) (by omega)
  | ifElse condition branch alternative, level, place => by
    have hcondition := condition.landmarks_inOrder (level + 1) (place + 2)
    have hbranch := branch.landmarks_inOrder (level + 1) (place + (condition.width + 3))
    have halternative := alternative.landmarks_inOrder (level + 1)
      (place + (condition.width + 3 + branch.width + 1))
    simp only [width]
    have hbranches := hbranch.append halternative (by omega) (by omega) (by omega)
    have hall := hcondition.append hbranches (by omega) (by omega) (by omega)
    exact (hall.mono (by omega) (by omega)).opening (level + 1) (by omega)

theorem landmarksOfAll_inOrder : ∀ (ss : List Stmt) (level place : Nat),
    Landmark.InOrder place (place + widthOfAll ss) (landmarksOfAll level place ss)
  | [], _, _ => .nil
  | s :: ss, level, place => by
    have hs := s.landmarks_inOrder level place
    have hss := landmarksOfAll_inOrder ss level (place + s.width)
    simp only [widthOfAll]
    exact (hs.append hss (by omega) (by omega) (by omega)).mono (Nat.le_refl _) (by omega)

end

mutual

theorem exists_opening : ∀ (s : Stmt) {level k : Nat} (place : Nat), level < k →
    k ≤ level + s.nesting → ∃ q, .opening k q ∈ s.landmarks level place
  | expression value, level, k, place, hlt, hle => value.exists_opening place hlt hle
  | print value, level, k, place, hlt, hle => value.exists_opening (place + 1) hlt hle
  | var _ none, level, k, _, hlt, hle => absurd hle (Nat.not_le.2 hlt)
  | var _ (some value), level, k, place, hlt, hle => value.exists_opening (place + 3) hlt hle
  | block statements, level, k, place, hlt, hle => by
    simp only [nesting] at hle
    exact Landmark.exists_opening_cons hlt
      (fun hlt => exists_openingOfAll statements (place + 1) hlt (by omega)) place
  | ifThen condition branch, level, k, place, hlt, hle => by
    simp only [nesting] at hle
    refine Landmark.exists_opening_cons hlt (fun hlt => ?_) place
    by_cases hcondition : k ≤ level + 1 + condition.nesting
    · obtain ⟨q, hq⟩ := condition.exists_opening (place + 2) hlt hcondition
      exact ⟨q, List.mem_append_left _ hq⟩
    · obtain ⟨q, hq⟩ := branch.exists_opening (place + (condition.width + 3)) hlt (by omega)
      exact ⟨q, List.mem_append_right _ hq⟩
  | ifElse condition branch alternative, level, k, place, hlt, hle => by
    simp only [nesting] at hle
    refine Landmark.exists_opening_cons hlt (fun hlt => ?_) place
    by_cases hcondition : k ≤ level + 1 + condition.nesting
    · obtain ⟨q, hq⟩ := condition.exists_opening (place + 2) hlt hcondition
      exact ⟨q, List.mem_append_left _ hq⟩
    by_cases hbranch : k ≤ level + 1 + branch.nesting
    · obtain ⟨q, hq⟩ := branch.exists_opening (place + (condition.width + 3)) hlt hbranch
      exact ⟨q, List.mem_append_right _ (List.mem_append_left _ hq)⟩
    · obtain ⟨q, hq⟩ := alternative.exists_opening
        (place + (condition.width + 3 + branch.width + 1)) hlt (by omega)
      exact ⟨q, List.mem_append_right _ (List.mem_append_right _ hq)⟩

theorem exists_openingOfAll : ∀ (ss : List Stmt) {level k : Nat} (place : Nat), level < k →
    k ≤ level + nestingOfAll ss → ∃ q, .opening k q ∈ landmarksOfAll level place ss
  | [], level, k, _, hlt, hle => absurd hle (Nat.not_le.2 hlt)
  | s :: ss, level, k, place, hlt, hle => by
    simp only [nestingOfAll] at hle
    by_cases hs : k ≤ level + s.nesting
    · obtain ⟨q, hq⟩ := s.exists_opening place hlt hs
      exact ⟨q, List.mem_append_left _ hq⟩
    · obtain ⟨q, hq⟩ := exists_openingOfAll ss (place + s.width) hlt (by omega)
      exact ⟨q, List.mem_append_right _ hq⟩

end

variable {s : Stmt} {ss : List Stmt} {row ts : List Token} {place : Nat}

theorem WritesAll.landmarks_standIn
    (hss : ∀ s ∈ ss, s.Derivable ∧ ∀ {ts place}, s.Writes ts → StandsAt row place ts →
      ∀ level, ∀ m ∈ s.landmarks level place, m.StandsIn row)
    (hw : WritesAll ss ts) (hat : StandsAt row place ts) (level : Nat) :
    ∀ m ∈ landmarksOfAll level place ss, m.StandsIn row := by
  induction ss generalizing ts place with
  | nil => simp [landmarksOfAll]
  | cons s ss ih =>
    cases hw with
    | cons hfirst hothers =>
      obtain ⟨hderivable, hs⟩ := hss s (by simp)
      have hlater := hat.right
      rw [hderivable.length_eq hfirst] at hlater
      exact List.forall_mem_append.2 ⟨hs hfirst hat.left level,
        ih (fun s hs => hss s (by simp [hs])) hothers hlater⟩

theorem Derivable.landmarks_standIn (h : s.Derivable) (hw : s.Writes ts) (hat : StandsAt row place ts)
    (level : Nat) : ∀ m ∈ s.landmarks level place, m.StandsIn row := by
  induction h generalizing ts place level with
  | expression h =>
    cases hw with
    | expression hvalue => exact h.landmarks_standIn hvalue hat.left level
  | print h =>
    cases hw with
    | print _ hvalue => exact h.landmarks_standIn hvalue hat.left.tail level
  | var _ h =>
    cases hw with
    | varOnly => simp [landmarks]
    | varWith _ _ hvalue =>
      exact (h _ rfl).landmarks_standIn hvalue hat.left.tail.tail.tail level
  | block hss ih =>
    cases hw with
    | block hopening hall =>
      refine List.forall_mem_cons.2 ⟨?_, ?_⟩
      · exact Landmark.standsIn_opening hat (by rw [hopening]; rfl) (by simp) _
      · exact hall.landmarks_standIn (fun s hs => ⟨hss s hs, ih s hs⟩) hat.left.tail _
  | ifThen h _ _ ih =>
    cases hw with
    | ifThen hkeyword _ hcondition _ hbranch =>
      have hinner := hat.branch
      rw [h.length_eq hcondition] at hinner
      refine List.forall_mem_cons.2 ⟨?_, List.forall_mem_append.2 ⟨?_, ih hbranch hinner _⟩⟩
      · exact Landmark.standsIn_opening hat (by rw [hkeyword]; rfl) (by simp) _
      · exact h.landmarks_standIn hcondition hat.left.tail.tail _
  | ifElse h hb _ _ _ _ ih ih' =>
    cases hw with
    | ifElse hkeyword _ hcondition _ hbranch _ halternative =>
      have hinner := hat.left.branch
      have hlast := hat.alternative
      rw [h.length_eq hcondition] at hinner hlast
      rw [hb.length_eq hbranch] at hlast
      refine List.forall_mem_cons.2 ⟨?_, List.forall_mem_append.2 ⟨?_,
        List.forall_mem_append.2 ⟨ih hbranch hinner _, ih' halternative hlast _⟩⟩⟩
      · exact Landmark.standsIn_opening hat (by rw [hkeyword]; rfl) (by simp) _
      · exact h.landmarks_standIn hcondition hat.left.left.tail.tail _

end Stmt

end ScriptSyntax
