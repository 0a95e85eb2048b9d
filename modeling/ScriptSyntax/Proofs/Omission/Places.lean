import ScriptSyntax.Parser.Recovery
import ScriptSyntax.Proofs.Grammar.Written
/-! # The places of semicolons

The places in a row of tokens where the semicolons of expression statements stand, counted from the
first token of the row, and the row without some of them.
-/

namespace ScriptSyntax

variable {chosen : List Nat} {start i : Nat} {whole ts us : List Token}

/-! ## Rows without some tokens -/

/-- A row of tokens without those at the chosen places. Its first token is at `start`. -/
def without (chosen : List Nat) (start : Nat) (tokens : List Token) : List Token :=
  ((tokens.zipIdx start).filter fun p => decide (p.2 ∉ chosen)).map Prod.fst

theorem without_sublist (chosen : List Nat) (start : Nat) (ts : List Token) :
    (without chosen start ts).Sublist ts := by
  have h := (List.filter_sublist (p := fun p => decide (p.2 ∉ chosen)) (l := ts.zipIdx start)).map
    Prod.fst
  rwa [List.zipIdx_map_fst] at h

theorem without_cons_of_mem {t : Token} (h : start ∈ chosen) :
    without chosen start (t :: ts) = without chosen (start + 1) ts := by
  simp [without, List.zipIdx_cons, h]

theorem without_cons_of_not_mem {t : Token} (h : start ∉ chosen) :
    without chosen start (t :: ts) = t :: without chosen (start + 1) ts := by
  simp [without, List.zipIdx_cons, h]

theorem without_append (chosen : List Nat) (start : Nat) (ts us : List Token) :
    without chosen start (ts ++ us) =
      without chosen start ts ++ without chosen (start + ts.length) us := by
  simp [without, List.zipIdx_append]

theorem without_eq_self (h : ∀ i ∈ chosen, start ≤ i → start + ts.length ≤ i) :
    without chosen start ts = ts := by
  induction ts generalizing start with
  | nil => rfl
  | cons t ts ih =>
    simp only [List.length_cons] at h
    have hstart : start ∉ chosen := by
      intro hmem
      have := h start hmem (Nat.le_refl _)
      omega
    rw [without_cons_of_not_mem hstart, ih]
    intro i hi hle
    have := h i hi (by omega)
    omega

theorem without_between {front behind : List Token}
    (h : ∀ i ∈ chosen, start ≤ i → i < start + (front ++ ts ++ behind).length →
      start + front.length ≤ i ∧ i < start + front.length + ts.length) :
    without chosen start (front ++ ts ++ behind) =
      front ++ without chosen (start + front.length) ts ++ behind := by
  simp only [List.length_append] at h
  have hfront : without chosen start front = front := by
    apply without_eq_self
    intro i hi hle
    have := h i hi hle
    omega
  have hbehind : without chosen (start + (front ++ ts).length) behind = behind := by
    apply without_eq_self
    intro i hi hle
    have := h i hi
    rw [List.length_append] at hle ⊢
    omega
  rw [without_append, without_append, hfront, hbehind]

/-! ## Parts of a row -/

/-- The row has the tokens of `ts` from a place on. -/
def StandsAt (whole : List Token) (start : Nat) (ts : List Token) : Prop := ts <+: whole.drop start

theorem StandsAt.left (h : StandsAt whole start (ts ++ us)) : StandsAt whole start ts :=
  (List.prefix_append ts us).trans h

theorem StandsAt.right (h : StandsAt whole start (ts ++ us)) :
    StandsAt whole (start + ts.length) us := by
  obtain ⟨rest, hrest⟩ := h
  refine ⟨rest, ?_⟩
  rw [← List.drop_drop, ← hrest, List.append_assoc, List.drop_left]

theorem StandsAt.behind {t : Token} (h : StandsAt whole start (ts ++ t :: us)) :
    StandsAt whole (start + (ts.length + 1)) us := by
  rw [List.append_cons] at h
  have := h.right
  rwa [List.length_append, List.length_singleton] at this

theorem StandsAt.tail {t : Token} (h : StandsAt whole start (t :: us)) :
    StandsAt whole (start + 1) us := by
  rw [← List.singleton_append] at h
  exact h.right

theorem StandsAt.branch {vs : List Token} {keyword opening closing : Token}
    (h : StandsAt whole start (keyword :: opening :: us ++ closing :: vs)) :
    StandsAt whole (start + (us.length + 3)) vs :=
  h.behind

theorem StandsAt.alternative {vs ws : List Token} {keyword opening closing keyword' : Token}
    (h : StandsAt whole start (keyword :: opening :: us ++ closing :: vs ++ keyword' :: ws)) :
    StandsAt whole (start + (us.length + 3 + vs.length + 1)) ws := by
  have hplace : (keyword :: opening :: us ++ closing :: vs).length + 1 =
      us.length + 3 + vs.length + 1 := by
    simp only [List.length_append, List.length_cons]
    omega
  rw [← hplace]
  exact h.behind

theorem StandsAt.head?_drop {t : Token} (h : StandsAt whole start (t :: us)) :
    (whole.drop start).head? = some t := by
  obtain ⟨rest, hrest⟩ := h
  rw [← hrest]
  rfl

theorem StandsAt.getElem? {t : Token} (h : StandsAt whole start (t :: us)) :
    whole[start]? = some t := by
  rw [← List.head?_drop]
  exact h.head?_drop

/-- What is left of the row from a place on. -/
def remaining (chosen : List Nat) (whole : List Token) (start : Nat) : List Token :=
  without chosen start (whole.drop start)

theorem StandsAt.remaining_eq (h : StandsAt whole start ts) (chosen : List Nat) :
    remaining chosen whole start =
      without chosen start ts ++ remaining chosen whole (start + ts.length) := by
  obtain ⟨rest, hrest⟩ := h
  unfold remaining
  rw [← List.drop_drop, ← hrest, List.drop_left, without_append]

/-- At the chosen places stand semicolons that may be left out. -/
def MayLeaveOut (chosen : List Nat) (whole : List Token) : Prop :=
  ∀ i ∈ chosen, ∃ semicolon rest, whole.drop i = semicolon :: rest ∧
    semicolon.kind = .semicolon ∧ atStatementEnd rest = true

theorem MayLeaveOut.not_mem (h : MayLeaveOut chosen whole)
    (hnext : ∀ t ∈ (whole.drop i).head?, t.kind ≠ .semicolon) : i ∉ chosen := by
  intro hi
  obtain ⟨semicolon, rest, hrest, hkind, -⟩ := h i hi
  exact hnext semicolon (by rw [hrest]; rfl) hkind

theorem MayLeaveOut.head?_remaining (h : MayLeaveOut chosen whole)
    (hnext : ∀ t ∈ (whole.drop i).head?, t.kind ≠ .semicolon) :
    (remaining chosen whole i).head? = (whole.drop i).head? := by
  have hkept := h.not_mem hnext
  unfold remaining
  cases whole.drop i with
  | nil => rfl
  | cons t more => rw [without_cons_of_not_mem hkept, List.head?_cons, List.head?_cons]

theorem MayLeaveOut.remaining_cons {t : Token} (h : MayLeaveOut chosen whole)
    (hat : StandsAt whole start (t :: ts)) (ht : t.kind ≠ .semicolon) :
    remaining chosen whole start = t :: remaining chosen whole (start + 1) := by
  have hkept : start ∉ chosen := by
    apply h.not_mem
    simpa [hat.head?_drop] using ht
  have hone : StandsAt whole start [t] := StandsAt.left hat
  rw [hone.remaining_eq, without_cons_of_not_mem hkept]
  rfl

namespace Stmt

variable {s : Stmt} {ss : List Stmt}

/-! ## Where the semicolons are -/

mutual

/-- The places of the semicolons of expression statements in a statement that starts at `start`. -/
def semicolonsFrom (start : Nat) : Stmt → List Nat
  | expression value => [start + value.width]
  | print _ | var _ _ => []
  | block statements => semicolonsOfAllFrom (start + 1) statements
  | ifThen condition branch => branch.semicolonsFrom (start + (condition.width + 3))
  | ifElse condition branch alternative =>
    branch.semicolonsFrom (start + (condition.width + 3)) ++
      alternative.semicolonsFrom (start + (condition.width + 3 + branch.width + 1))

def semicolonsOfAllFrom (start : Nat) : List Stmt → List Nat
  | [] => []
  | s :: ss => s.semicolonsFrom start ++ semicolonsOfAllFrom (start + s.width) ss

end

mutual

theorem bounds_of_mem_semicolonsFrom : ∀ (s : Stmt) {start i : Nat}, i ∈ s.semicolonsFrom start →
    start ≤ i ∧ i < start + s.width
  | expression value, start, i, h => by
    simp only [semicolonsFrom, List.mem_singleton] at h
    simp only [width]
    omega
  | print _, _, _, h | var _ _, _, _, h => absurd h List.not_mem_nil
  | block statements, start, i, h => by
    have := bounds_of_mem_semicolonsOfAllFrom statements h
    simp only [width]
    omega
  | ifThen condition branch, start, i, h => by
    have := branch.bounds_of_mem_semicolonsFrom h
    simp only [width]
    omega
  | ifElse condition branch alternative, start, i, h => by
    simp only [width]
    rcases List.mem_append.1 h with h | h
    · have := branch.bounds_of_mem_semicolonsFrom h
      omega
    · have := alternative.bounds_of_mem_semicolonsFrom h
      omega

theorem bounds_of_mem_semicolonsOfAllFrom : ∀ (ss : List Stmt) {start i : Nat},
    i ∈ semicolonsOfAllFrom start ss → start ≤ i ∧ i < start + widthOfAll ss
  | [], _, _, h => absurd h List.not_mem_nil
  | s :: ss, start, i, h => by
    simp only [widthOfAll]
    rcases List.mem_append.1 h with h | h
    · have := s.bounds_of_mem_semicolonsFrom h
      omega
    · have := bounds_of_mem_semicolonsOfAllFrom ss h
      omega

end

mutual

theorem pairwise_semicolonsFrom : ∀ (s : Stmt) (start : Nat),
    (s.semicolonsFrom start).Pairwise (· < ·)
  | expression _, _ => List.pairwise_singleton _ _
  | print _, _ | var _ _, _ => .nil
  | block statements, start => pairwise_semicolonsOfAllFrom statements (start + 1)
  | ifThen _ branch, _ => branch.pairwise_semicolonsFrom _
  | ifElse _ branch alternative, _ => by
    refine List.pairwise_append.2 ⟨branch.pairwise_semicolonsFrom _,
      alternative.pairwise_semicolonsFrom _, fun i hi j hj => ?_⟩
    have hi := branch.bounds_of_mem_semicolonsFrom hi
    have hj := alternative.bounds_of_mem_semicolonsFrom hj
    omega

theorem pairwise_semicolonsOfAllFrom : ∀ (ss : List Stmt) (start : Nat),
    (semicolonsOfAllFrom start ss).Pairwise (· < ·)
  | [], _ => .nil
  | s :: ss, start => by
    refine List.pairwise_append.2 ⟨s.pairwise_semicolonsFrom start,
      pairwise_semicolonsOfAllFrom ss _, fun i hi j hj => ?_⟩
    have hi := s.bounds_of_mem_semicolonsFrom hi
    have hj := bounds_of_mem_semicolonsOfAllFrom ss hj
    omega

end

end Stmt

end ScriptSyntax
