import ScriptSyntax.Proofs.Grammar.Stmt
import ScriptSyntax.Proofs.Parenthesized.Expr
/-! # What a text shows of statements

Where a statement ends is seen from the text, whatever stands behind it, as long as that is no `else`.
So a row of statements is told from its text too.
-/

namespace ScriptSyntax.Stmt

variable {rest rest' : List Char}

/-! ## Texts -/

mutual

/-- The characters of the parenthesized form. -/
def text : Stmt → List Char
  | expression value => ['(', 's', 't', 'm', 't', ' '] ++ (value.term.text ++ [')'])
  | print value => ['(', 'p', 'r', 'i', 'n', 't', ' '] ++ (value.term.text ++ [')'])
  | var name none => ['(', 'v', 'a', 'r', ' '] ++ (name.lexeme.toList ++ [')'])
  | var name (some value) =>
    ['(', 'v', 'a', 'r', ' '] ++
      (name.lexeme.toList ++ ([' ', '=', ' '] ++ (value.term.text ++ [')'])))
  | block statements => ['\x7b', ' '] ++ (textOfAll statements ++ [' ', '\x7d'])
  | ifThen condition branch =>
    ['(', 'i', 'f', ' '] ++
      (condition.term.text ++ ([')', ',', ' ', '\x7b', '\n'] ++ (branch.text ++ ['\n', '\x7d'])))
  | ifElse condition branch alternative =>
    ['(', 'i', 'f', ' '] ++
      (condition.term.text ++ ([')', ',', ' ', '\x7b', '\n'] ++ (branch.text ++ (['\n', '\x7d'] ++
        ([' ', 'e', 'l', 's', 'e', ' ', '\x7b', '\n'] ++ (alternative.text ++ ['\n', '\x7d']))))))

def textOfAll : List Stmt → List Char
  | [] => []
  | s :: ss => s.text ++ textOfAll ss

end

mutual

theorem toList_parenthesized : ∀ s : Stmt, s.parenthesized.toList = s.text
  | expression value | print value | var _ (some value) => by
    simp [parenthesized, text, value.toList_parenthesized]
  | var _ none => by simp [parenthesized, text]
  | block statements => by simp [parenthesized, text, toList_allParenthesized statements]
  | ifThen condition branch => by
    simp [parenthesized, conditionalText, text, condition.toList_parenthesized,
      toList_parenthesized branch]
  | ifElse condition branch alternative => by
    simp [parenthesized, conditionalText, text, condition.toList_parenthesized,
      toList_parenthesized branch, toList_parenthesized alternative]

theorem toList_allParenthesized : ∀ ss : List Stmt,
    (allParenthesized ss).toList = textOfAll ss
  | [] => rfl
  | s :: ss => by
    simp [allParenthesized, textOfAll, toList_parenthesized s, toList_allParenthesized ss]

end

/-! ## Statements are shown -/

mutual

/-- The expressions and the names in a statement are told from their texts. -/
def IsShown : Stmt → Prop
  | expression value | print value => value.IsShown
  | var name initializer =>
    name.IsLexed ∧ name.kind = .identifier ∧ ∀ e ∈ initializer, e.IsShown
  | block statements => AllShown statements
  | ifThen condition branch => condition.IsShown ∧ branch.IsShown
  | ifElse condition branch alternative =>
    condition.IsShown ∧ branch.IsShown ∧ alternative.IsShown

def AllShown : List Stmt → Prop
  | [] => True
  | s :: ss => s.IsShown ∧ AllShown ss

end

theorem allShown_iff {ss : List Stmt} : AllShown ss ↔ ∀ s ∈ ss, s.IsShown := by
  induction ss with
  | nil => simp [AllShown]
  | cons s ss ih => rw [AllShown, ih, List.forall_mem_cons]

theorem mem_keptByAll {s : Stmt} {ss : List Stmt} {t : Token} (hs : s ∈ ss) (ht : t ∈ s.kept) :
    t ∈ keptByAll ss := by
  obtain ⟨before, behind, rfl⟩ := List.append_of_mem hs
  rw [keptByAll_append]
  exact List.mem_append_right _ (List.mem_append_left _ ht)

theorem Derivable.isShown {s : Stmt} (h : s.Derivable)
    (hkept : ∀ t ∈ s.kept, Expr.IsPlainSource t) : s.IsShown := by
  induction h with
  | expression hvalue => exact hvalue.isShown hkept
  | print hvalue => exact hvalue.isShown hkept
  | @var name initializer hkind hinitializer =>
    cases initializer with
    | none => exact ⟨(hkept name List.mem_cons_self).1, hkind, by simp⟩
    | some value =>
      obtain ⟨hname, hvalue⟩ := List.forall_mem_cons.1 hkept
      refine ⟨hname.1, hkind, fun e he => ?_⟩
      obtain rfl := Option.some.inj he
      exact (hinitializer value rfl).isShown hvalue
  | block _ ih => exact allShown_iff.2 fun s hs => ih s hs fun t ht => hkept t (mem_keptByAll hs ht)
  | ifThen hcondition _ _ ih =>
    obtain ⟨hkept, hbranch⟩ := List.forall_mem_append.1 hkept
    exact ⟨hcondition.isShown hkept, ih hbranch⟩
  | ifElse hcondition _ _ _ _ _ ih ih' =>
    obtain ⟨hkept, hrest⟩ := List.forall_mem_append.1 hkept
    obtain ⟨hbranch, halternative⟩ := List.forall_mem_append.1 hrest
    exact ⟨hcondition.isShown hkept, ih hbranch, ih' halternative⟩

/-! ## A statement is told from its text -/

/-- What stands behind a statement does not go on with `else`. -/
def NoElse (rest : List Char) : Prop := rest.take 2 ≠ [' ', 'e']

/-- What stands behind statements does not go on with one more. -/
def EndsAll (rest : List Char) : Prop :=
  NoElse rest ∧ ∀ c ∈ rest.head?, c ≠ '(' ∧ c ≠ '\x7b'

theorem text_first (s : Stmt) : ∃ c more, s.text = c :: more ∧ (c = '(' ∨ c = '\x7b') := by
  cases s with
  | var name initializer => cases initializer <;> exact ⟨_, _, rfl, by decide⟩
  | _ => exact ⟨_, _, rfl, by decide⟩

theorem noElse_newline (rest : List Char) : NoElse ('\n' :: rest) := by simp [NoElse]

theorem noElse_textOfAll {ss : List Stmt} (h : EndsAll rest) : NoElse (textOfAll ss ++ rest) := by
  cases ss with
  | nil => exact h.1
  | cons s ss =>
    obtain ⟨c, more, htext, hc⟩ := s.text_first
    rw [textOfAll, htext]
    rcases hc with rfl | rfl <;> simp [NoElse]

theorem endsAll_nil : EndsAll [] := ⟨by simp [NoElse], by simp⟩

theorem endsAll_brace (rest : List Char) : EndsAll (' ' :: '\x7d' :: rest) :=
  ⟨by simp [NoElse], by simp⟩

theorem value_append_inj {e e' : Expr} (h : e.IsShown) (h' : e'.IsShown)
    (heq : e.term.text ++ ')' :: rest = e'.term.text ++ ')' :: rest') :
    e.mapTokens Token.plain = e'.mapTokens Token.plain ∧ rest = rest' := by
  obtain ⟨hvalue, hrests⟩ :=
    h.text_append_inj h' (startsDelimited_paren rest) (startsDelimited_paren rest') heq
  exact ⟨hvalue, (List.cons.inj hrests).2⟩

theorem name_append_inj {name name' : Token} (h : name.IsLexed) (h' : name'.IsLexed)
    (hkind : name.kind = .identifier) (hkind' : name'.kind = .identifier)
    (hrest : StartsDelimited rest) (hrest' : StartsDelimited rest')
    (heq : name.lexeme.toList ++ rest = name'.lexeme.toList ++ rest') :
    name.plain = name'.plain ∧ rest = rest' := by
  obtain ⟨hplain, hbare⟩ := h.plain_of_name hkind
  obtain ⟨hplain', hbare'⟩ := h'.plain_of_name hkind'
  obtain ⟨hlexeme, hrests⟩ := hbare.append_inj hbare' hrest hrest' heq
  rw [hplain, hplain', hlexeme]
  exact ⟨rfl, hrests⟩

theorem var_append_inj {name name' : Token} {initializer initializer' : Option Expr}
    (h : (var name initializer).IsShown) (h' : (var name' initializer').IsShown)
    (heq : (var name initializer).text ++ rest = (var name' initializer').text ++ rest') :
    (var name initializer).mapTokens Token.plain = (var name' initializer').mapTokens Token.plain ∧
      rest = rest' := by
  obtain ⟨hlexed, hkind, hvalue⟩ := h
  obtain ⟨hlexed', hkind', hvalue'⟩ := h'
  have hparen := startsDelimited_paren
  have hblank := startsDelimited_blank
  rw [mapTokens, mapTokens]
  rcases initializer with _ | value <;> rcases initializer' with _ | value'
  case none.none =>
    obtain ⟨hplain, hrests⟩ := name_append_inj hlexed hlexed' hkind hkind' (hparen rest) (hparen rest')
      (by simpa [text] using heq)
    rw [hplain]
    exact ⟨rfl, (List.cons.inj hrests).2⟩
  case none.some =>
    obtain ⟨-, hrests⟩ := name_append_inj hlexed hlexed' hkind hkind' (hparen rest) (hblank _)
      (by simpa [text] using heq)
    simp at hrests
  case some.none =>
    obtain ⟨-, hrests⟩ := name_append_inj hlexed hlexed' hkind hkind' (hblank _) (hparen rest')
      (by simpa [text] using heq)
    simp at hrests
  case some.some =>
    obtain ⟨hplain, hvalues⟩ := name_append_inj hlexed hlexed' hkind hkind' (hblank _) (hblank _)
      (by simpa [text] using heq)
    obtain ⟨hsame, rfl⟩ := value_append_inj (hvalue value rfl) (hvalue' value' rfl)
      (by simpa using hvalues)
    rw [hplain, Option.map_some, Option.map_some, hsame]
    exact ⟨rfl, rfl⟩

theorem branch_append_inj {condition condition' : Expr} {branch branch' : Stmt}
    (h : condition.IsShown) (h' : condition'.IsShown)
    (hbranch : ∀ {rest rest'}, NoElse rest → NoElse rest' →
      branch.text ++ rest = branch'.text ++ rest' →
      branch.mapTokens Token.plain = branch'.mapTokens Token.plain ∧ rest = rest')
    (heq : condition.term.text ++ ')' :: ',' :: ' ' :: '\x7b' :: '\n' ::
        (branch.text ++ '\n' :: '\x7d' :: rest) =
      condition'.term.text ++ ')' :: ',' :: ' ' :: '\x7b' :: '\n' ::
        (branch'.text ++ '\n' :: '\x7d' :: rest')) :
    condition.mapTokens Token.plain = condition'.mapTokens Token.plain ∧
      branch.mapTokens Token.plain = branch'.mapTokens Token.plain ∧ rest = rest' := by
  obtain ⟨hcondition, hbehind⟩ := value_append_inj h h' heq
  obtain ⟨hbranches, hrests⟩ :=
    hbranch (noElse_newline _) (noElse_newline _) (by simpa using hbehind)
  exact ⟨hcondition, hbranches, by simpa using hrests⟩

mutual

-- Statements of two forms differ in the first characters of their texts, conditionals with an
-- alternative and without one only in what stands behind the branch.
theorem text_append_inj : ∀ {s s' : Stmt} {rest rest' : List Char}, s.IsShown → s'.IsShown →
    NoElse rest → NoElse rest' → s.text ++ rest = s'.text ++ rest' →
    s.mapTokens Token.plain = s'.mapTokens Token.plain ∧ rest = rest'
  | expression value, s', rest, rest', h, h', _, _, heq => by
    cases s' with
    | expression value' =>
      have heq : value.term.text ++ ')' :: rest = value'.term.text ++ ')' :: rest' := by
        simpa [text] using heq
      obtain ⟨hvalue, rfl⟩ := value_append_inj h h' heq
      exact ⟨by rw [mapTokens, mapTokens, hvalue], rfl⟩
    | var name' initializer' => cases initializer' <;> simp [text] at heq
    | _ => simp [text] at heq
  | print value, s', rest, rest', h, h', _, _, heq => by
    cases s' with
    | print value' =>
      have heq : value.term.text ++ ')' :: rest = value'.term.text ++ ')' :: rest' := by
        simpa [text] using heq
      obtain ⟨hvalue, rfl⟩ := value_append_inj h h' heq
      exact ⟨by rw [mapTokens, mapTokens, hvalue], rfl⟩
    | var name' initializer' => cases initializer' <;> simp [text] at heq
    | _ => simp [text] at heq
  | var name initializer, s', rest, rest', h, h', _, _, heq => by
    cases s' with
    | var name' initializer' => exact var_append_inj h h' heq
    | _ => cases initializer <;> simp [text] at heq
  | block statements, s', rest, rest', h, h', _, _, heq => by
    cases s' with
    | block statements' =>
      have heq : textOfAll statements ++ ' ' :: '\x7d' :: rest =
          textOfAll statements' ++ ' ' :: '\x7d' :: rest' := by simpa [text] using heq
      obtain ⟨hstatements, hrests⟩ :=
        textOfAll_append_inj h h' (endsAll_brace rest) (endsAll_brace rest') heq
      rw [mapTokens, mapTokens, mapTokensOfAll_eq, mapTokensOfAll_eq, hstatements]
      exact ⟨rfl, by simpa using hrests⟩
    | var name' initializer' => cases initializer' <;> simp [text] at heq
    | _ => simp [text] at heq
  | ifThen condition branch, s', rest, rest', h, h', hrest, _, heq => by
    cases s' with
    | ifThen condition' branch' =>
      obtain ⟨hcondition, hbranch, rfl⟩ := branch_append_inj h.1 h'.1
        (text_append_inj h.2 h'.2) (by simpa [text] using heq)
      exact ⟨by rw [mapTokens, mapTokens, hcondition, hbranch], rfl⟩
    | ifElse condition' branch' alternative' =>
      obtain ⟨-, -, rfl⟩ := branch_append_inj h.1 h'.1
        (text_append_inj h.2 h'.2.1) (by simpa [text] using heq)
      exact absurd rfl hrest
    | var name' initializer' => cases initializer' <;> simp [text] at heq
    | _ => simp [text] at heq
  | ifElse condition branch alternative, s', rest, rest', h, h', _, hrest', heq => by
    cases s' with
    | ifThen condition' branch' =>
      obtain ⟨-, -, rfl⟩ := branch_append_inj h.1 h'.1
        (text_append_inj h.2.1 h'.2) (by simpa [text] using heq)
      exact absurd rfl hrest'
    | ifElse condition' branch' alternative' =>
      obtain ⟨hcondition, hbranch, hbehind⟩ := branch_append_inj h.1 h'.1
        (text_append_inj h.2.1 h'.2.1) (by simpa [text] using heq)
      obtain ⟨halternative, hrests⟩ := text_append_inj h.2.2 h'.2.2 (noElse_newline _)
        (noElse_newline _) (by simpa using hbehind)
      rw [mapTokens, mapTokens, hcondition, hbranch, halternative]
      exact ⟨rfl, by simpa using hrests⟩
    | var name' initializer' => cases initializer' <;> simp [text] at heq
    | _ => simp [text] at heq

theorem textOfAll_append_inj : ∀ {ss ss' : List Stmt} {rest rest' : List Char}, AllShown ss →
    AllShown ss' → EndsAll rest → EndsAll rest' → textOfAll ss ++ rest = textOfAll ss' ++ rest' →
    ss.map (mapTokens Token.plain) = ss'.map (mapTokens Token.plain) ∧ rest = rest'
  | [], ss', rest, rest', _, _, hrest, _, heq => by
    cases ss' with
    | nil => exact ⟨rfl, heq⟩
    | cons s' ss' =>
      obtain ⟨c, more, htext, hc⟩ := s'.text_first
      rw [textOfAll, textOfAll, htext] at heq
      have hfirst := hrest.2 c (by rw [List.nil_append] at heq; rw [heq]; rfl)
      exact absurd hc (by simpa using hfirst)
  | s :: ss, ss', rest, rest', h, h', hrest, hrest', heq => by
    cases ss' with
    | nil =>
      obtain ⟨c, more, htext, hc⟩ := s.text_first
      rw [textOfAll, textOfAll, htext] at heq
      have hfirst := hrest'.2 c (by rw [List.nil_append] at heq; rw [← heq]; rfl)
      exact absurd hc (by simpa using hfirst)
    | cons s' ss' =>
      rw [textOfAll, textOfAll, List.append_assoc, List.append_assoc] at heq
      obtain ⟨hs, hbehind⟩ := text_append_inj h.1 h'.1 (noElse_textOfAll hrest)
        (noElse_textOfAll hrest') heq
      obtain ⟨hss, hrests⟩ := textOfAll_append_inj h.2 h'.2 hrest hrest' hbehind
      rw [List.map_cons, List.map_cons, hs, hss]
      exact ⟨rfl, hrests⟩

end

/-! ## The text is told from the statement -/

mutual

theorem text_mapTokens : ∀ {s : Stmt}, s.IsShown → (s.mapTokens Token.plain).text = s.text
  | expression value, h | print value, h => by rw [mapTokens, text, text, h.term_plain]
  | var name initializer, ⟨hlexed, hkind, hvalue⟩ => by
    have hname : name.plain.lexeme.toList = name.lexeme.toList := by
      rw [(hlexed.plain_of_name hkind).1, Token.ofText, String.toList_ofList]
    cases initializer with
    | none => rw [mapTokens, Option.map_none, text, text, hname]
    | some value => rw [mapTokens, Option.map_some, text, text, hname, (hvalue value rfl).term_plain]
  | block statements, h => by
    rw [mapTokens, mapTokensOfAll_eq, text, text, textOfAll_mapTokens h]
  | ifThen condition branch, h => by
    rw [mapTokens, text, text, h.1.term_plain, text_mapTokens h.2]
  | ifElse condition branch alternative, h => by
    rw [mapTokens, text, text, h.1.term_plain, text_mapTokens h.2.1, text_mapTokens h.2.2]

theorem textOfAll_mapTokens : ∀ {ss : List Stmt}, AllShown ss →
    textOfAll (ss.map (mapTokens Token.plain)) = textOfAll ss
  | [], _ => rfl
  | s :: ss, h => by
    rw [List.map_cons, textOfAll, textOfAll, text_mapTokens h.1, textOfAll_mapTokens h.2]

end

theorem textOfAll_eq_iff {ss ss' : List Stmt} (h : AllShown ss) (h' : AllShown ss') :
    textOfAll ss = textOfAll ss' ↔
      ss.map (mapTokens Token.plain) = ss'.map (mapTokens Token.plain) := by
  constructor
  · intro heq
    exact (textOfAll_append_inj h h' endsAll_nil endsAll_nil (congrArg (· ++ []) heq)).1
  · intro heq
    rw [← textOfAll_mapTokens h, ← textOfAll_mapTokens h', heq]

end ScriptSyntax.Stmt
