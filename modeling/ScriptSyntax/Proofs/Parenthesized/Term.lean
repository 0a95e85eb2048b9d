import ScriptSyntax.Parenthesized
/-! # Terms

The parenthesized form of an expression is the text of a term: a word, a name, an assignment, or a
label with parts behind it. A term can be told from its text, whatever stands behind that.
-/

namespace ScriptSyntax

/-- What a parenthesized text is made of. -/
inductive Term where
  | word (text : List Char)
  | name (text : List Char)
  | assignment (target : List Char) (value : Term)
  | list (label : List Char) (parts : List Term)

/-- A text without the characters that end it. -/
def IsBare (text : List Char) : Prop := ∀ c ∈ text, c ≠ ' ' ∧ c ≠ ')'

instance (text : List Char) : Decidable (IsBare text) :=
  List.decidableBAll (fun c => c ≠ ' ' ∧ c ≠ ')') text

/-- A word is not taken for the start of another term. -/
def IsLiteralWord (text : List Char) : Prop :=
  IsBare text ∧ ∃ c rest, text = c :: rest ∧ c ≠ '(' ∧ c ≠ 'v' ∧ c ≠ 'a'

instance : DecidablePred IsLiteralWord
  | [] => isFalse fun ⟨_, _, _, h, _⟩ => List.cons_ne_nil _ _ h.symm
  | c :: rest =>
    decidable_of_iff (IsBare (c :: rest) ∧ c ≠ '(' ∧ c ≠ 'v' ∧ c ≠ 'a')
      ⟨fun h => ⟨h.1, c, rest, rfl, h.2⟩, fun ⟨h, _, _, heq, hc⟩ => ⟨h, by cases heq; exact hc⟩⟩

/-- A text that is empty or starts with a character that ends a bare text. -/
def StartsDelimited (text : List Char) : Prop := ∀ c ∈ text.head?, c = ' ' ∨ c = ')'

namespace Term

mutual

/-- The text of a term. -/
def text : Term → List Char
  | word text => text
  | name text => ['v', 'a', 'r', ' '] ++ text
  | assignment target value =>
    ['a', 's', 's', ' ', '('] ++ (target ++ ' ' :: (value.text ++ [')']))
  | list label parts => '(' :: (label ++ (textOfParts parts ++ [')']))

/-- Each part behind a blank. -/
def textOfParts : List Term → List Char
  | [] => []
  | part :: parts => ' ' :: (part.text ++ textOfParts parts)

end

mutual

/-- The texts in a term are bare. -/
def IsSound : Term → Prop
  | word text => IsLiteralWord text
  | name text => IsBare text
  | assignment target value => IsBare target ∧ value.IsSound
  | list label parts => IsBare label ∧ AllSound parts

def AllSound : List Term → Prop
  | [] => True
  | part :: parts => part.IsSound ∧ AllSound parts

end

end Term

/-! ## Where a bare text ends -/

variable {rest rest' : List Char}

theorem startsDelimited_blank (rest : List Char) : StartsDelimited (' ' :: rest) := by
  rintro c hc
  exact .inl (Option.some.inj hc).symm

theorem startsDelimited_paren (rest : List Char) : StartsDelimited (')' :: rest) := by
  rintro c hc
  exact .inr (Option.some.inj hc).symm

theorem startsDelimited_parts (parts : List Term) (rest : List Char) :
    StartsDelimited (Term.textOfParts parts ++ ')' :: rest) := by
  cases parts with
  | nil => exact startsDelimited_paren rest
  | cons part parts => exact startsDelimited_blank _

theorem IsBare.append_inj {text text' : List Char} (h : IsBare text) (h' : IsBare text')
    (hrest : StartsDelimited rest) (hrest' : StartsDelimited rest')
    (heq : text ++ rest = text' ++ rest') : text = text' ∧ rest = rest' := by
  have htake {text rest : List Char} (h : IsBare text) (hrest : StartsDelimited rest) :
      (text ++ rest).takeWhile (fun c => c != ' ' && c != ')') = text := by
    rw [List.takeWhile_append_of_pos fun c hc => by simpa using h c hc]
    cases rest with
    | nil => simp
    | cons c rest =>
      rcases hrest c rfl with rfl | rfl <;> simp
  obtain rfl : text = text' := by rw [← htake h hrest, heq, htake h' hrest']
  exact ⟨rfl, List.append_cancel_left heq⟩

/-! ## A term is told from its text -/

namespace Term

mutual

-- Terms of two forms differ in their first character, by the condition on words.
theorem text_append_inj : ∀ {t t' : Term} {rest rest' : List Char}, t.IsSound → t'.IsSound →
    StartsDelimited rest → StartsDelimited rest' → t.text ++ rest = t'.text ++ rest' →
    t = t' ∧ rest = rest'
  | word text, t', rest, rest', h, h', hrest, hrest', heq => by
    obtain ⟨c, more, rfl, hparen, hv, ha⟩ := h.2
    cases t' with
    | word text' =>
      obtain ⟨rfl, rfl⟩ := h.1.append_inj h'.1 hrest hrest' heq
      exact ⟨rfl, rfl⟩
    | name text' => exact absurd (List.cons.inj heq).1 hv
    | assignment target value => exact absurd (List.cons.inj heq).1 ha
    | list label parts => exact absurd (List.cons.inj heq).1 hparen
  | name text, t', rest, rest', h, h', hrest, hrest', heq => by
    cases t' with
    | word text' =>
      obtain ⟨c, more, rfl, -, hv, -⟩ := h'.2
      exact absurd (List.cons.inj heq).1.symm hv
    | name text' =>
      have heq : text ++ rest = text' ++ rest' := by simpa [Term.text] using heq
      obtain ⟨rfl, rfl⟩ := IsBare.append_inj h h' hrest hrest' heq
      exact ⟨rfl, rfl⟩
    | assignment target value => simp [Term.text] at heq
    | list label parts => simp [Term.text] at heq
  | assignment target value, t', rest, rest', h, h', hrest, hrest', heq => by
    cases t' with
    | word text' =>
      obtain ⟨c, more, rfl, -, -, ha⟩ := h'.2
      exact absurd (List.cons.inj heq).1.symm ha
    | name text' => simp [Term.text] at heq
    | assignment target' value' =>
      have heq : target ++ ' ' :: (value.text ++ ')' :: rest) =
          target' ++ ' ' :: (value'.text ++ ')' :: rest') := by simpa [Term.text] using heq
      obtain ⟨rfl, hvalue⟩ :=
        h.1.append_inj h'.1 (startsDelimited_blank _) (startsDelimited_blank _) heq
      obtain ⟨rfl, hrests⟩ := text_append_inj h.2 h'.2 (startsDelimited_paren rest)
        (startsDelimited_paren rest') (List.cons.inj hvalue).2
      exact ⟨rfl, (List.cons.inj hrests).2⟩
    | list label parts => simp [Term.text] at heq
  | list label parts, t', rest, rest', h, h', hrest, hrest', heq => by
    cases t' with
    | word text' =>
      obtain ⟨c, more, rfl, hparen, -, -⟩ := h'.2
      exact absurd (List.cons.inj heq).1.symm hparen
    | name text' => simp [Term.text] at heq
    | assignment target value => simp [Term.text] at heq
    | list label' parts' =>
      have heq : label ++ (textOfParts parts ++ ')' :: rest) =
          label' ++ (textOfParts parts' ++ ')' :: rest') := by simpa [Term.text] using heq
      obtain ⟨rfl, hparts⟩ := h.1.append_inj h'.1 (startsDelimited_parts parts rest)
        (startsDelimited_parts parts' rest') heq
      obtain ⟨rfl, rfl⟩ := textOfParts_append_inj h.2 h'.2 hparts
      exact ⟨rfl, rfl⟩

theorem textOfParts_append_inj : ∀ {parts parts' : List Term} {rest rest' : List Char},
    AllSound parts → AllSound parts' →
    textOfParts parts ++ ')' :: rest = textOfParts parts' ++ ')' :: rest' →
    parts = parts' ∧ rest = rest'
  | [], parts', rest, rest', _, _, heq => by
    -- Behind the last part there is a parenthesis, in front of one more a blank.
    cases parts' with
    | nil => exact ⟨rfl, (List.cons.inj heq).2⟩
    | cons part' parts' => simp [textOfParts] at heq
  | part :: parts, parts', rest, rest', h, h', heq => by
    cases parts' with
    | nil => simp [textOfParts] at heq
    | cons part' parts' =>
      have heq : part.text ++ (textOfParts parts ++ ')' :: rest) =
          part'.text ++ (textOfParts parts' ++ ')' :: rest') := by
        simpa [textOfParts] using heq
      obtain ⟨rfl, hparts⟩ := text_append_inj h.1 h'.1 (startsDelimited_parts parts rest)
        (startsDelimited_parts parts' rest') heq
      obtain ⟨rfl, rfl⟩ := textOfParts_append_inj h.2 h'.2 hparts
      exact ⟨rfl, rfl⟩

end

end Term

end ScriptSyntax
