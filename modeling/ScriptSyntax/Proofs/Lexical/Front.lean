import ScriptSyntax.Proofs.Lexical.Language
/-! # The longest lexeme at the front of a text -/

namespace ScriptSyntax

variable {text p : List Char}

/-- A lexeme stands in front of a text and belongs to its kind, and no longer text of any kind stands
there. -/
structure Lexeme.IsLongest (l : Lexeme) (text : List Char) : Prop where
  spelled : l.kind.Spelled l.text
  stands : l.text <+: text
  longest : ∀ (kind : TokenKind) (p : List Char), kind.Spelled p → p <+: text →
    p.length ≤ l.text.length

namespace Lexeme

theorem prefix_takeWhile {q : Char → Bool} (hp : ∀ c ∈ p, q c = true) (h : p <+: text) :
    p <+: text.takeWhile q := by
  obtain ⟨rest, rfl⟩ := h
  rw [List.takeWhile_append_of_pos hp]
  exact List.prefix_append p _

theorem takeWhile_append_cons {q : Char → Bool} {c : Char} (hp : ∀ d ∈ p, q d = true)
    (hc : q c = false) (rest : List Char) : (p ++ c :: rest).takeWhile q = p := by
  rw [List.takeWhile_append_of_pos hp, List.takeWhile_cons_of_neg (by simp [hc]), List.append_nil]

theorem dropWhile_append_cons {q : Char → Bool} {c : Char} (hp : ∀ d ∈ p, q d = true)
    (hc : q c = false) (rest : List Char) : (p ++ c :: rest).dropWhile q = c :: rest := by
  rw [List.dropWhile_append_of_pos hp, List.dropWhile_cons_of_neg (by simp [hc])]

/-! ## Words -/

theorem frontWord_isWord {c : Char} (hc : IsWordStart c) (text : List Char) :
    IsWord (frontWord (c :: text)) := by
  have hpart : continuesWord c = true := continuesWord_iff.2 (.inl hc)
  refine ⟨c, text.takeWhile continuesWord, by simp [frontWord, hpart], hc, fun d hd => ?_⟩
  exact continuesWord_iff.1 (List.all_eq_true.1 List.all_takeWhile d hd)

theorem length_le_frontWord (hword : IsWord p) (h : p <+: text) :
    p.length ≤ (frontWord text).length := by
  obtain ⟨c, rest, rfl, hc, hrest⟩ := hword
  refine (prefix_takeWhile (fun d hd => continuesWord_iff.2 ?_) h).length_le
  rcases List.mem_cons.1 hd with rfl | hd
  · exact .inl hc
  · exact hrest d hd

theorem ofWord_spelled (h : IsWord text) : (TokenKind.ofWord text).Spelled text := by
  unfold TokenKind.ofWord
  rcases hlookup : TokenKind.keywords.lookup text with _ | kind
  · refine .identifier h fun kind hkind => ?_
    have hmem := TokenKind.mem_keywords_iff.2 hkind
    have := List.lookup_eq_none_iff.1 hlookup _ hmem
    simp at this
  · obtain ⟨front, back, htable, -⟩ := List.lookup_eq_some_iff.1 hlookup
    have hmem : (text, kind) ∈ TokenKind.keywords := by simp [htable]
    exact .keyword (TokenKind.mem_keywords_iff.1 hmem)

/-! ## Numbers -/

theorem all_isDigit (h : IsDigits p) : ∀ c ∈ p, c.isDigit = true := fun c hc =>
  isDigit_iff.2 (h.2 c hc)

theorem takeWhile_isDigits {c : Char} (hc : IsDigit c) (text : List Char) :
    IsDigits ((c :: text).takeWhile Char.isDigit) := by
  refine ⟨by simp [isDigit_iff.2 hc], fun d hd => ?_⟩
  exact isDigit_iff.1 (List.all_eq_true.1 List.all_takeWhile d hd)

theorem frontNumber_of_digits {d : Char} {tail : List Char}
    (h : text.dropWhile Char.isDigit = '.' :: d :: tail) (hd : IsDigit d) :
    frontNumber text = text.takeWhile Char.isDigit ++ '.' :: (d :: tail).takeWhile Char.isDigit := by
  unfold frontNumber
  rw [h]
  exact if_pos (isDigit_iff.2 hd)

theorem frontNumber_of_no_digits
    (h : ∀ d tail, text.dropWhile Char.isDigit = '.' :: d :: tail → ¬IsDigit d) :
    frontNumber text = text.takeWhile Char.isDigit := by
  unfold frontNumber
  dsimp only
  split
  · rename_i d tail hdrop
    rw [if_neg fun hd => h d tail hdrop (isDigit_iff.1 hd)]
  · rfl

theorem frontNumber_isNumber {c : Char} (hc : IsDigit c) (text : List Char) :
    IsNumber (frontNumber (c :: text)) := by
  have hwhole := takeWhile_isDigits hc text
  by_cases h : ∃ d tail, (c :: text).dropWhile Char.isDigit = '.' :: d :: tail ∧ IsDigit d
  · obtain ⟨d, tail, hdrop, hd⟩ := h
    exact .inr ⟨_, _, frontNumber_of_digits hdrop hd, hwhole, takeWhile_isDigits hd tail⟩
  · rw [frontNumber_of_no_digits fun d tail hdrop hd => h ⟨d, tail, hdrop, hd⟩]
    exact .inl hwhole

theorem takeWhile_prefix_frontNumber (text : List Char) :
    text.takeWhile Char.isDigit <+: frontNumber text := by
  by_cases h : ∃ d tail, text.dropWhile Char.isDigit = '.' :: d :: tail ∧ IsDigit d
  · obtain ⟨d, tail, hdrop, hd⟩ := h
    rw [frontNumber_of_digits hdrop hd]
    exact List.prefix_append _ _
  · have hdigits := frontNumber_of_no_digits fun d tail hdrop hd => h ⟨d, tail, hdrop, hd⟩
    exact hdigits ▸ List.prefix_rfl

theorem length_le_frontNumber (hnumber : IsNumber p) (h : p <+: text) :
    p.length ≤ (frontNumber text).length := by
  rcases hnumber with hdigits | ⟨whole, places, rfl, hwhole, hplaces⟩
  · exact ((prefix_takeWhile (all_isDigit hdigits) h).trans
      (takeWhile_prefix_frontNumber text)).length_le
  · obtain ⟨rest, rfl⟩ := h
    obtain ⟨d, tail, rfl⟩ := List.exists_cons_of_ne_nil hplaces.1
    have hpoint : Char.isDigit '.' = false := rfl
    rw [List.append_assoc, List.cons_append]
    have htake := takeWhile_append_cons (all_isDigit hwhole) hpoint (d :: tail ++ rest)
    have hdrop : (whole ++ '.' :: (d :: tail ++ rest)).dropWhile Char.isDigit =
        '.' :: d :: (tail ++ rest) := dropWhile_append_cons (all_isDigit hwhole) hpoint _
    rw [frontNumber_of_digits hdrop hplaces.first, htake]
    have hmore : (d :: tail).length ≤ ((d :: (tail ++ rest)).takeWhile Char.isDigit).length :=
      (prefix_takeWhile (all_isDigit hplaces) (List.prefix_append (d :: tail) rest)).length_le
    simp only [List.length_append, List.length_cons] at hmore ⊢
    omega

/-! ## Strings -/

theorem frontString?_eq {contents : List Char} (h : '"' ∉ contents) (rest : List Char) :
    frontString? (contents ++ '"' :: rest) = some ('"' :: contents ++ ['"']) := by
  have hcontents : ∀ c ∈ contents, (c != '"') = true := by
    intro c hc
    have : c ≠ '"' := fun hquote => h (hquote ▸ hc)
    simpa using this
  unfold frontString?
  rw [dropWhile_append_cons hcontents rfl, takeWhile_append_cons hcontents rfl]

theorem frontString?_isQuoted {s : List Char} (h : frontString? text = some s) : IsQuoted s := by
  unfold frontString? at h
  split at h
  · contradiction
  · rename_i quote tail hdrop
    have hquote := List.head?_dropWhile_not (· != '"') text
    rw [hdrop] at hquote
    obtain rfl : quote = '"' := by simpa using hquote
    cases h
    refine ⟨_, rfl, fun hmem => ?_⟩
    have := List.all_eq_true.1 List.all_takeWhile _ hmem
    simp at this

theorem length_le_frontString? {s : List Char} (hs : frontString? text = some s)
    (hquoted : IsQuoted p) (h : p <+: '"' :: text) : p.length ≤ s.length := by
  obtain ⟨contents, rfl, hcontents⟩ := hquoted
  obtain ⟨rest, hrest⟩ := h
  have htext : text = contents ++ '"' :: rest := by simpa using hrest.symm
  rw [htext, frontString?_eq hcontents] at hs
  exact Nat.le_of_eq (congrArg List.length (Option.some.inj hs))

/-! ## Marks and operators -/

theorem frontSymbol?_mark {s : List Char × TokenKind} (h : frontSymbol? text = some s) :
    s.2.mark? = some s.1 :=
  TokenKind.mem_symbols_iff.1 (List.mem_of_find?_eq_some h)

/-- The longer symbols stand first in the table. -/
theorem length_le_frontSymbol? {s : List Char × TokenKind} {kind : TokenKind}
    (hs : frontSymbol? text = some s) (hmark : kind.mark? = some p) (h : p <+: text) :
    p.length ≤ s.1.length := by
  obtain ⟨-, front, back, htable, hfront⟩ := List.find?_eq_some_iff_append.1 hs
  have hsorted : TokenKind.symbols.Pairwise fun s t => t.1.length ≤ s.1.length := by decide
  have hmem := TokenKind.mem_symbols_iff.2 hmark
  rw [htable] at hsorted hmem
  rcases List.mem_append.1 hmem with hmem | hmem
  · have := hfront _ hmem
    rw [List.isPrefixOf_iff_prefix.2 h] at this
    contradiction
  · rcases List.mem_cons.1 hmem with rfl | hmem
    · exact Nat.le_refl _
    · exact (List.pairwise_cons.1 (List.pairwise_append.1 hsorted).2.1).1 _ hmem

end Lexeme

theorem Front.isLongest_of_eq_lexeme {c : Char} {l : Lexeme} (h : of c text = lexeme l) :
    l.IsLongest (c :: text) := by
  have hstands := prefix_of_eq_lexeme h
  have hfirst {kind : TokenKind} {p : List Char} (hp : kind.Spelled p) (hbegins : p <+: c :: text) :
      ∃ rest, p = c :: rest := by
    obtain ⟨d, rest, rfl⟩ := List.exists_cons_of_ne_nil hp.ne_nil
    exact ⟨rest, by rw [(List.cons_prefix_cons.1 hbegins).1]⟩
  unfold of at h
  split at h
  · rename_i hquote
    subst hquote
    split at h
    · rename_i s hs
      cases h
      refine ⟨.string (Lexeme.frontString?_isQuoted hs), hstands, fun kind p hp hbegins => ?_⟩
      obtain ⟨rest, rfl⟩ := hfirst hp hbegins
      exact Lexeme.length_le_frontString? hs hp.isQuoted hbegins
    · contradiction
  · rename_i hquote
    split at h
    · rename_i hdigit
      have hdigit := isDigit_iff.1 hdigit
      cases h
      refine ⟨.number (Lexeme.frontNumber_isNumber hdigit text), hstands,
        fun kind p hp hbegins => ?_⟩
      obtain ⟨rest, rfl⟩ := hfirst hp hbegins
      exact Lexeme.length_le_frontNumber (hp.isNumber hdigit) hbegins
    · rename_i hdigit
      split at h
      · rename_i hword
        have hword := startsWord_iff.1 hword
        cases h
        refine ⟨Lexeme.ofWord_spelled (Lexeme.frontWord_isWord hword text), hstands,
          fun kind p hp hbegins => ?_⟩
        obtain ⟨rest, rfl⟩ := hfirst hp hbegins
        exact Lexeme.length_le_frontWord (hp.isWord hword) hbegins
      · rename_i hword
        split at h
        · rename_i s kind hs
          cases h
          refine ⟨.mark (Lexeme.frontSymbol?_mark hs), hstands, fun kind p hp hbegins => ?_⟩
          obtain ⟨rest, rfl⟩ := hfirst hp hbegins
          have hmark := hp.isMark hquote (fun hd => hdigit (isDigit_iff.2 hd))
            fun hw => hword (startsWord_iff.2 hw)
          exact Lexeme.length_le_frontSymbol? hs hmark hbegins
        · contradiction

/-! ## The longest lexeme is found -/

namespace TokenKind

variable {kind : TokenKind}

theorem mark?_unique {other : TokenKind} (h : kind.mark? = some text)
    (hother : other.mark? = some text) : kind = other := by
  have htable : ∀ s ∈ symbols, ∀ t ∈ symbols, s.1 = t.1 → s.2 = t.2 := by decide
  exact htable _ (mem_symbols_iff.2 h) _ (mem_symbols_iff.2 hother) rfl

theorem ofWord_of_keyword (h : kind.keyword? = some text) : ofWord text = kind := by
  have htable : ∀ s ∈ keywords, ofWord s.1 = s.2 := by decide
  exact htable _ (mem_keywords_iff.2 h)

theorem ofWord_of_no_keyword (h : ∀ kind : TokenKind, kind.keyword? ≠ some text) :
    ofWord text = identifier := by
  have hnone : keywords.lookup text = none := List.lookup_eq_none_iff.2 fun s hs => by
    have : text ≠ s.1 := fun heq => h s.2 (heq ▸ mem_keywords_iff.1 hs)
    simpa using this
  rw [ofWord, hnone]
  rfl

end TokenKind

namespace Front

variable {c : Char} {l : Lexeme}

theorem of_digit (hc : IsDigit c) (text : List Char) :
    of c text = lexeme ⟨.number, Lexeme.frontNumber (c :: text)⟩ := by
  have hquote : c ≠ '"' := by
    rintro rfl
    exact absurd hc (by decide)
  rw [of, if_neg hquote, if_pos (isDigit_iff.2 hc)]

theorem of_wordStart (hc : IsWordStart c) (text : List Char) : of c text =
    lexeme ⟨.ofWord (Lexeme.frontWord (c :: text)), Lexeme.frontWord (c :: text)⟩ := by
  have hquote : c ≠ '"' := by
    rintro rfl
    exact absurd hc (by decide)
  have hdigit : ¬c.isDigit = true := fun h => (isDigit_iff.1 h).not_isWordStart hc
  rw [of, if_neg hquote, if_neg hdigit, if_pos (startsWord_iff.2 hc)]

theorem exists_of_mark {kind : TokenKind} {p : List Char} (h : kind.mark? = some p)
    (hstands : p <+: c :: text) :
    ∃ s kind, TokenKind.mark? kind = some s ∧ of c text = lexeme ⟨kind, s⟩ := by
  obtain ⟨d, rest, rfl⟩ := List.exists_cons_of_ne_nil (TokenKind.Spelled.mark h).ne_nil
  obtain rfl : d = c := (List.cons_prefix_cons.1 hstands).1
  obtain ⟨hquote, hdigit, hword⟩ := TokenKind.mark?_first h
  have hsome : (Lexeme.frontSymbol? (d :: text)).isSome := by
    rw [Lexeme.frontSymbol?, List.find?_isSome]
    exact ⟨_, TokenKind.mem_symbols_iff.2 h, List.isPrefixOf_iff_prefix.2 hstands⟩
  obtain ⟨s, hs⟩ := Option.isSome_iff_exists.1 hsome
  refine ⟨s.1, s.2, Lexeme.frontSymbol?_mark hs, ?_⟩
  rw [of, if_neg hquote, if_neg fun hd => hdigit (isDigit_iff.1 hd),
    if_neg fun hw => hword (startsWord_iff.1 hw), hs]

theorem of_eq_lexeme (h : l.IsLongest (c :: text)) : of c text = lexeme l := by
  obtain ⟨kind, p⟩ := l
  obtain ⟨hspelled, hstands, hlongest⟩ := h
  dsimp only at hspelled hstands hlongest
  -- What is found and `p` stand at one place, and each is the longest.
  have hfound {found : TokenKind} {s : List Char} (hof : of c text = lexeme ⟨found, s⟩) : s = p := by
    have hs := isLongest_of_eq_lexeme hof
    have hle := hlongest _ _ hs.spelled hs.stands
    exact (List.prefix_of_prefix_length_le hs.stands hstands hle).eq_of_length_le
      (hs.longest _ _ hspelled hstands)
  have hfirst {q : Char → Prop} (hq : ∀ d rest, p = d :: rest → q d) : q c := by
    obtain ⟨d, rest, rfl⟩ := List.exists_cons_of_ne_nil hspelled.ne_nil
    exact (List.cons_prefix_cons.1 hstands).1 ▸ hq d rest rfl
  have hword (hword : IsWord p) : of c text = lexeme ⟨.ofWord p, p⟩ := by
    have hof := of_wordStart (hfirst fun d rest hp => (hp ▸ hword).first) text
    rwa [hfound hof] at hof
  cases hspelled with
  | mark hmark =>
    obtain ⟨s, found, hs, hof⟩ := exists_of_mark hmark hstands
    obtain rfl := hfound hof
    rw [hof, TokenKind.mark?_unique hs hmark]
  | keyword hkeyword =>
    rw [hword (TokenKind.keyword?_isWord hkeyword), TokenKind.ofWord_of_keyword hkeyword]
  | identifier hident hnone => rw [hword hident, TokenKind.ofWord_of_no_keyword hnone]
  | number hnumber =>
    have hof := of_digit (hfirst fun d rest hp => (hp ▸ hnumber).first) text
    rwa [hfound hof] at hof
  | string hquoted =>
    obtain ⟨contents, rfl, hcontents⟩ := hquoted
    obtain ⟨rest, hrest⟩ := hstands
    obtain ⟨rfl, rfl⟩ : c = '"' ∧ text = contents ++ '"' :: rest := by simpa using hrest.symm
    rw [of, if_pos rfl, Lexeme.frontString?_eq hcontents]

end Front

end ScriptSyntax
