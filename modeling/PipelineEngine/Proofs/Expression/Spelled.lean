import PipelineEngine.Proofs.Expression.Canonical
import PipelineEngine.Proofs.Expression.Written

/-!
# Expressions as texts

Every token of a tree is spelled, and blanks stand before, between and behind the tokens as one
likes (`Token.Spaced`).  A text is cut into its tokens again because each of them ends where
the next one starts: what follows an operand is no character of a word, and what an operator
waits for is no `=`.

* `Token.front_of_spells`, one case for each kind of token, and `Token.scans_of_spaced`, by
  induction on the text: the tokens are read back.
* `Expr.parseCondition_written`: the tree is read back.
-/

namespace PipelineEngine

/-! ## Trees that can be written -/

/-- A value that has a literal: null, booleans, strings and integers of 64 bits. -/
def Value.HasLiteral : Value → Prop
  | .null | .bool _ | .string _ => True
  | .number (.int n) => Word.fits 63 n = true
  | .number (.float _) | .array _ | .object _ => False

/-- A token that can be written. -/
def Token.IsWritable : Token → Prop
  | .literal v => v.HasLiteral
  | .ref r => r.IsCanonical
  | .leftParen | .rightParen | .eqEq | .notEq | .and | .or | .not => True

/-- A tree whose literals and references can be written and that has no templates. -/
def Expr.IsWritable : Expr → Prop
  | .literal v => v.HasLiteral
  | .ref r => r.IsCanonical
  | .template _ => False
  | .not e => e.IsWritable
  | .eq l r | .ne l r | .and l r | .or l r => l.IsWritable ∧ r.IsWritable

theorem Expr.IsWritable.isPlain {e : Expr} (h : e.IsWritable) : e.IsPlain := by
  induction e with
  | literal | ref => trivial
  | template => exact h
  | not e ih => exact ih h
  | eq l r ihl ihr | ne l r ihl ihr | and l r ihl ihr | or l r ihl ihr =>
    exact ⟨ihl h.1, ihr h.2⟩

/-- Parentheses are always writable. -/
theorem Expr.forall_mem_operand {place own : Production} {ts : List Token}
    (h : ∀ t ∈ ts, t.IsWritable) : ∀ t ∈ operand place own ts, t.IsWritable := by
  rw [operand]
  split
  · exact h
  · have hinner : ∀ t ∈ ts ++ [.rightParen], t.IsWritable :=
      List.forall_mem_append.2 ⟨h, List.forall_mem_singleton.2 trivial⟩
    exact List.forall_mem_cons.2 ⟨trivial, hinner⟩

theorem Expr.IsWritable.tokens {e : Expr} (h : e.IsWritable) : ∀ t ∈ e.tokens, t.IsWritable := by
  induction e with
  | literal | ref => exact List.forall_mem_singleton.2 h
  | template => exact h.elim
  | not e ih => exact List.forall_mem_cons.2 ⟨trivial, forall_mem_operand (ih h)⟩
  | eq l r ihl ihr | ne l r ihl ihr | and l r ihl ihr | or l r ihl ihr =>
    exact List.forall_mem_append.2 ⟨forall_mem_operand (ihl h.1),
      List.forall_mem_cons.2 ⟨trivial, forall_mem_operand (ihr h.2)⟩⟩

namespace Token

/-! ## Spelling tokens -/

/-- The characters of a string between quotes: the quote and the backslash stand behind a
backslash. -/
def escape (quote : Char) (s : List Char) : List Char :=
  s.flatMap fun c => if c = quote ∨ c = '\\' then ['\\', c] else [c]

/-- How tokens are written. -/
inductive Spells : Token → List Char → Prop
  | leftParen : Spells .leftParen ['(']
  | rightParen : Spells .rightParen [')']
  | eqEq : Spells .eqEq ['=', '=']
  | notEq : Spells .notEq ['!', '=']
  | and : Spells .and ['&', '&']
  | or : Spells .or ['|', '|']
  | not : Spells .not ['!']
  | null : Spells (.literal .null) ['n', 'u', 'l', 'l']
  | true : Spells (.literal (.bool Bool.true)) ['t', 'r', 'u', 'e']
  | false : Spells (.literal (.bool Bool.false)) ['f', 'a', 'l', 's', 'e']
  | integer (n : Int) : Spells (.literal (.int n)) (Numeral.signed n).toList
  | string {quote : Char} (h : quote = '\'' ∨ quote = '"') (s : String) :
    Spells (.literal (.string s)) (quote :: (escape quote s.toList ++ [quote]))
  | ref (r : Reference) : Spells (.ref r) ('$' :: '\x7b' :: (r.raw.toList ++ ['\x7d']))

/-- The tokens, each spelled, with any blanks before, between and behind them. -/
inductive Spaced : List Token → List Char → Prop
  | nil : Spaced [] []
  | blank {c : Char} {ts : List Token} {text : List Char} (hc : isSpace c = true)
      (h : Spaced ts text) : Spaced ts (c :: text)
  | token {t : Token} {chars : List Char} {ts : List Token} {text : List Char}
      (ht : Spells t chars) (h : Spaced ts text) : Spaced (t :: ts) (chars ++ text)

theorem exists_spells {t : Token} (h : t.IsWritable) : ∃ chars, Spells t chars := by
  cases t with
  | leftParen => exact ⟨_, .leftParen⟩
  | rightParen => exact ⟨_, .rightParen⟩
  | eqEq => exact ⟨_, .eqEq⟩
  | notEq => exact ⟨_, .notEq⟩
  | and => exact ⟨_, .and⟩
  | or => exact ⟨_, .or⟩
  | not => exact ⟨_, .not⟩
  | ref r => exact ⟨_, .ref r⟩
  | literal v =>
    cases v with
    | null => exact ⟨_, .null⟩
    | bool b =>
      cases b with
      | true => exact ⟨_, .true⟩
      | false => exact ⟨_, .false⟩
    | string s => exact ⟨_, .string (.inl rfl) s⟩
    | number n =>
      cases n with
      | int n => exact ⟨_, .integer n⟩
      | float x => exact h.elim
    | array | object => exact h.elim

theorem exists_spaced {ts : List Token} (h : ∀ t ∈ ts, t.IsWritable) : ∃ text, Spaced ts text := by
  induction ts with
  | nil => exact ⟨[], .nil⟩
  | cons t ts ih =>
    obtain ⟨ht, hts⟩ := List.forall_mem_cons.1 h
    obtain ⟨chars, hchars⟩ := exists_spells ht
    obtain ⟨text, htext⟩ := ih hts
    exact ⟨chars ++ text, .token hchars htext⟩

/-! ## Operands and operators take turns -/

/-- Whether the token stands where an operand is due. -/
def opens : Token → Bool
  | .leftParen | .not | .literal _ | .ref _ => true
  | .rightParen | .eqEq | .notEq | .and | .or => false

/-- Whether an operand is read when the token is. -/
def closes : Token → Bool
  | .rightParen | .literal _ | .ref _ => true
  | .leftParen | .not | .eqEq | .notEq | .and | .or => false

/-- Operands stand where they are due, and operators where they are not. -/
def Alternates : Bool → List Token → Prop
  | _, [] => True
  | due, t :: ts => t.opens = due ∧ Alternates (!t.closes) ts

theorem alternates_operandTokens {operator : Token} (hopens : operator.opens = false)
    (hcloses : operator.closes = false) {operands : List (List Token × Expr)}
    (hoperands : ∀ operand ∈ operands, ∀ {more}, Alternates false more →
      Alternates true (operand.1 ++ more))
    {more : List Token} (hmore : Alternates false more) :
    Alternates false (Expr.operandTokens operator operands ++ more) := by
  induction operands with
  | nil => exact hmore
  | cons operand operands ih =>
    obtain ⟨hoperand, hoperands⟩ := List.forall_mem_cons.1 hoperands
    rw [Expr.operandTokens, List.flatMap_cons, List.append_assoc]
    refine ⟨hopens, ?_⟩
    rw [hcloses]
    exact hoperand (ih hoperands)

theorem alternates_of_derives {c : Expr.Production} {ts : List Token} {e : Expr}
    (h : Expr.Derives c ts e) {more : List Token} (hmore : Alternates false more) :
    Alternates true (ts ++ more) := by
  induction h generalizing more with
  | or _ _ ihfirst ihoperands | and _ _ ihfirst ihoperands =>
    rw [List.append_assoc]
    exact ihfirst (alternates_operandTokens rfl rfl ihoperands hmore)
  | comparison _ ih | primary _ ih => exact ih hmore
  | eq _ _ ihleft ihright | ne _ _ ihleft ihright =>
    rw [List.append_assoc]
    exact ihleft ⟨rfl, ihright hmore⟩
  | not _ ih => exact ⟨rfl, ih hmore⟩
  | @parenthesised ts e _ ih =>
    show Alternates true (.leftParen :: (ts ++ [.rightParen] ++ more))
    rw [List.append_assoc]
    exact ⟨rfl, ih ⟨rfl, hmore⟩⟩
  | literal | ref => exact ⟨rfl, hmore⟩

/-! ## Where tokens end -/

/-- A text that an operand or an operator can stand before: what follows an operand goes on
with no word, and what follows an operator starts with no `=`. -/
def Follows (due : Bool) (text : List Char) : Prop :=
  ∀ c ∈ text.head?, if due then c ≠ '=' else isWordChar c = false

theorem follows_of_spaced {ts : List Token} {text : List Char} (h : Spaced ts text) {due : Bool}
    (hts : Alternates due ts) : Follows due text := by
  intro c hc
  cases h with
  | nil => cases hc
  | @blank c' ts text hblank h =>
    obtain rfl : c' = c := by simpa using hc
    simp only [isSpace, Bool.or_eq_true, decide_eq_true_eq] at hblank
    obtain ((rfl | rfl) | rfl) | rfl := hblank <;> cases due <;> decide
  | @token t chars ts text ht h =>
    obtain ⟨rfl, -⟩ := hts
    cases ht with
    | integer n =>
      obtain ⟨c', more, heq, hc', -⟩ := Numeral.toList_signed_eq_cons n
      rw [heq] at hc
      obtain rfl : c' = c := by simpa using hc
      show c' ≠ '='
      intro hequals
      rcases hc' with hdigit | ⟨hminus, -⟩
      · rw [hequals] at hdigit
        exact absurd hdigit (by decide)
      · rw [hequals] at hminus
        exact absurd hminus (by decide)
    | @string quote hquote s =>
      obtain rfl : quote = c := by simpa using hc
      show quote ≠ '='
      rcases hquote with rfl | rfl <;> decide
    | ref r =>
      obtain rfl : '$' = c := by simpa using hc
      show '$' ≠ '='
      decide
    | leftParen | rightParen | eqEq | notEq | and | or | not | null | true | false =>
      obtain rfl := Option.some.inj hc
      decide

/-! ## Reading one token -/

theorem readString_escape {quote : Char} (hquote : quote ≠ '\\') (s rest : List Char) :
    readString quote (escape quote s ++ quote :: rest) = some (s, rest) := by
  induction s with
  | nil =>
    show readString quote (quote :: rest) = _
    rw [readString]
    · simp
    · intro h
      exact absurd h hquote
    · intro c r h
      exact absurd h hquote
  | cons c s ih =>
    rw [escape, List.flatMap_cons, List.append_assoc]
    by_cases hc : c = quote ∨ c = '\\'
    · rw [if_pos hc]
      show readString quote ('\\' :: c :: (escape quote s ++ quote :: rest)) = _
      rw [readString, ih]
      rfl
    · rw [if_neg hc]
      show readString quote (c :: (escape quote s ++ quote :: rest)) = _
      rw [not_or] at hc
      rw [readString, if_neg hc.1, ih]
      · rfl
      · intro h
        exact absurd h hc.2
      · intro c r h
        exact absurd h hc.2

variable {offset : Nat} {c : Char} {rest : List Char}

/-- Where no operator, parenthesis or brace starts, a string, a number or a word does. -/
theorem front_ordinary (hc : c ∉ ['(', ')', '=', '!', '&', '|', '$']) :
    front offset c rest =
      if c = '\'' ∨ c = '"' then
        match readString c rest with
        | some (cs, r) => .ok (.literal (.string (String.ofList cs)), r)
        | none => .error ⟨offset, .unterminatedString⟩
      else if Numeral.isDigit c ∨ (c = '-' ∧ (rest.head?.any Numeral.isDigit)) then
        (ofNumber offset (c :: rest.takeWhile isNumberChar)).map fun t =>
          (t, rest.dropWhile isNumberChar)
      else if c.isAlpha ∨ c = '_' then
        (ofWord offset (c :: rest.takeWhile isWordChar)).map fun t => (t, rest.dropWhile isWordChar)
      else .error ⟨offset, .unexpectedCharacter⟩ := by
  simp only [List.mem_cons, List.not_mem_nil, or_false, not_or] at hc
  obtain ⟨hopen, hclose, hequals, hnot, hand, hor, hdollar⟩ := hc
  unfold front
  split
  case h_9 => rfl
  all_goals contradiction

theorem front_string {quote : Char} (hquote : quote = '\'' ∨ quote = '"') (s : String) :
    front offset quote (escape quote s.toList ++ quote :: rest) =
      .ok (.literal (.string s), rest) := by
  have hordinary : quote ∉ ['(', ')', '=', '!', '&', '|', '$'] := by
    rcases hquote with rfl | rfl <;> decide
  have hbackslash : quote ≠ '\\' := by
    rcases hquote with rfl | rfl <;> decide
  rw [front_ordinary hordinary, if_pos hquote, readString_escape hbackslash]
  simp only [String.ofList_toList]

/-- A character of a class is no mark that is not in it. -/
theorem not_mem_of_class {p : Char → Bool} (hc : p c = true) {marks : List Char}
    (hmarks : marks.any p = false) : c ∉ marks := by
  intro hmem
  exact List.any_eq_false.1 hmarks c hmem hc

theorem isSpace_of_isWordChar (hc : isWordChar c = true) : isSpace c = false := by
  have hmem : c ∉ [' ', '\t', '\n', '\r'] := not_mem_of_class hc (by decide)
  simpa [isSpace, and_assoc] using hmem

theorem number?_signed {n : Int} (hn : Word.fits 63 n = true) :
    number? (Numeral.signed n).toList = some (.int n) := by
  rw [number?, Numeral.integer?_signed, Option.filter_some_pos hn]

theorem isWordChar_of_isNumberChar (hc : isNumberChar c = true) : isWordChar c = true := by
  simp only [isNumberChar, Bool.or_eq_true, decide_eq_true_eq] at hc
  rcases hc with hdigit | rfl
  · exact Reference.isWordChar_of_isNameChar (Reference.isNameChar_of_isDigit hdigit)
  · decide

/-- The text of an integer is read as the value that it has as a number. -/
theorem front_signed {n : Int} {v : Value} (hv : number? (Numeral.signed n).toList = some v)
    (hrest : Follows false rest) :
    ∃ c more, (Numeral.signed n).toList ++ rest = c :: more ∧ isSpace c = false ∧
      ∀ offset, front offset c more = .ok (.literal v, rest) := by
  obtain ⟨c, more, heq, hc, hmore⟩ := Numeral.toList_signed_eq_cons n
  have hword : isWordChar c = true := by
    rcases hc with hdigit | ⟨rfl, -⟩
    · exact Reference.isWordChar_of_isNameChar (Reference.isNameChar_of_isDigit hdigit)
    · decide
  have hquotes : ¬(c = '\'' ∨ c = '"') := by
    have hmem : c ∉ ['\'', '"'] := not_mem_of_class hword (by decide)
    simpa using hmem
  have hstart : Numeral.isDigit c = true ∨
      (c = '-' ∧ (more ++ rest).head?.any Numeral.isDigit = true) := by
    rcases hc with hdigit | ⟨hminus, hhead⟩
    · exact .inl hdigit
    · refine .inr ⟨hminus, ?_⟩
      cases more with
      | nil => cases hhead
      | cons d more => exact hhead
  have hnumber : ∀ d ∈ more, isNumberChar d = true := by
    intro d hd
    rw [isNumberChar, hmore d hd, Bool.true_or]
  have hend : ∀ d ∈ rest.head?, isNumberChar d = false := by
    intro d hd
    have hword : isWordChar d = false := hrest d hd
    cases hnumber : isNumberChar d with
    | false => rfl
    | true =>
      rw [isWordChar_of_isNumberChar hnumber] at hword
      cases hword
  refine ⟨c, more ++ rest, by rw [heq, List.cons_append], isSpace_of_isWordChar hword, ?_⟩
  intro offset
  rw [front_ordinary (not_mem_of_class hword (by decide)), if_neg hquotes, if_pos hstart,
    takeWhile_word hnumber hend, dropWhile_word hnumber hend, ofNumber, ← heq, hv]
  rfl

theorem between_of_isAlpha (hc : c.isAlpha = true) : 'A' ≤ c ∧ c ≤ 'z' := by
  rcases Bool.or_eq_true_iff.1 hc with hupper | hlower
  · obtain ⟨hlow, hhigh⟩ : 'A' ≤ c ∧ c ≤ 'Z' := of_decide_eq_true hupper
    exact ⟨hlow, Char.le_trans hhigh (by decide)⟩
  · obtain ⟨hlow, hhigh⟩ := Bool.and_eq_true_iff.1 hlower
    have ha : 'a' ≤ c := of_decide_eq_true hlow
    exact ⟨Char.le_trans (by decide) ha, of_decide_eq_true hhigh⟩

theorem isDigit_of_isAlpha (hc : c.isAlpha = true) : Numeral.isDigit c = false := by
  cases hdigit : Numeral.isDigit c with
  | false => rfl
  | true =>
    have hnine : c ≤ '9' := of_decide_eq_true (Bool.and_eq_true_iff.1 hdigit).2
    exact absurd (Char.le_trans (between_of_isAlpha hc).1 hnine) (by decide)

/-- A word that starts with a letter is read as a whole. -/
theorem front_word {t : Token} {word : List Char} (hc : c.isAlpha = true)
    (hword : ofWord offset (c :: word) = .ok t) (hchars : ∀ d ∈ word, isWordChar d = true)
    (hrest : Follows false rest) : front offset c (word ++ rest) = .ok (t, rest) := by
  have hmarks : c ∉ ['(', ')', '=', '!', '&', '|', '$'] := not_mem_of_class hc (by decide)
  have hquotes : ¬(c = '\'' ∨ c = '"') := by
    have hmem : c ∉ ['\'', '"'] := not_mem_of_class hc (by decide)
    simpa using hmem
  have hminus : c ∉ ['-'] := not_mem_of_class hc (by decide)
  have hnumber : ¬(Numeral.isDigit c = true ∨
      (c = '-' ∧ (word ++ rest).head?.any Numeral.isDigit = true)) := by
    rw [isDigit_of_isAlpha hc]
    rintro (hdigit | ⟨rfl, -⟩)
    · cases hdigit
    · exact hminus (List.mem_singleton_self _)
  rw [front_ordinary hmarks, if_neg hquotes, if_neg hnumber, if_pos (.inl hc),
    takeWhile_word hchars hrest, dropWhile_word hchars hrest, hword]
  rfl

/-- A token that is spelled at the front of a text is read, and what follows it is left. -/
theorem front_of_spells {t : Token} {chars text : List Char} (h : Spells t chars)
    (ht : t.IsWritable) (htext : Follows (!t.closes) text) :
    ∃ c more, chars ++ text = c :: more ∧ isSpace c = false ∧
      ∀ offset, front offset c more = .ok (t, text) := by
  cases h with
  | leftParen | rightParen | eqEq | notEq | and | or =>
    exact ⟨_, _, rfl, by decide, fun _ => rfl⟩
  | not =>
    refine ⟨'!', text, rfl, by decide, fun offset => ?_⟩
    rw [front]
    intro r heq
    exact htext '=' (by rw [heq]; rfl) rfl
  | null | true | false =>
    exact ⟨_, _, rfl, by decide, fun _ => front_word rfl rfl (List.all_eq_true.1 rfl) htext⟩
  | integer n => exact front_signed (number?_signed ht) htext
  | @string quote hquote s =>
    refine ⟨quote, escape quote s.toList ++ quote :: text, by simp, ?_,
      fun _ => front_string hquote s⟩
    rcases hquote with rfl | rfl <;> decide
  | ref r =>
    have hbrace : '\x7d' ∉ r.raw.toList := fun hmem => absurd (ht.isWordChar _ hmem) (by decide)
    refine ⟨'$', '\x7b' :: (r.raw.toList ++ '\x7d' :: text), by simp, by decide,
      fun offset => ?_⟩
    rw [front, Text.cut?_append_cons hbrace]
    simp only [ht.read]
    rfl

/-! ## Reading all tokens -/

/-- Where no blank stands, a token is read and then the rest. -/
theorem scanFrom_cons (hspace : ¬ isSpace c = true) (offset : Nat) (rest : List Char) :
    scanFrom offset (c :: rest) = (front offset c rest >>= fun (t, r) =>
      (scanFrom (offset + (Utf8.size (c :: rest) - Utf8.size r)) r).map (⟨t, offset⟩ :: ·)) := by
  rw [scanFrom, if_neg hspace]
  split
  next fault hfront => rw [hfront]; rfl
  next t r hfront =>
    simp only [hfront]
    rfl

/-- The text is cut into the tokens, wherever it stands. -/
def Scans (text : List Char) (ts : List Token) : Prop :=
  ∀ offset, ∃ lexemes, scanFrom offset text = .ok lexemes ∧ lexemes.map (·.token) = ts

theorem Scans.nil : Scans [] [] := fun offset => ⟨[], by rw [scanFrom], rfl⟩

theorem Scans.blank {ts : List Token} (hc : isSpace c = true) (h : Scans rest ts) :
    Scans (c :: rest) ts := by
  intro offset
  obtain ⟨lexemes, hscan, hlexemes⟩ := h (offset + 1)
  exact ⟨lexemes, by rw [scanFrom, if_pos hc, hscan], hlexemes⟩

theorem Scans.token {t : Token} {ts : List Token} {text : List Char} (hc : isSpace c = false)
    (hfront : ∀ offset, front offset c rest = .ok (t, text)) (h : Scans text ts) :
    Scans (c :: rest) (t :: ts) := by
  intro offset
  obtain ⟨lexemes, hscan, hlexemes⟩ := h (offset + (Utf8.size (c :: rest) - Utf8.size text))
  refine ⟨⟨t, offset⟩ :: lexemes, ?_, by rw [List.map_cons, hlexemes]⟩
  rw [scanFrom_cons (by simp [hc]), hfront]
  show (scanFrom _ text).map _ = _
  rw [hscan]
  rfl

theorem scans_of_spaced {ts : List Token} {text : List Char} (h : Spaced ts text) {due : Bool}
    (hts : Alternates due ts) (hwritable : ∀ t ∈ ts, t.IsWritable) : Scans text ts := by
  induction h generalizing due with
  | nil => exact .nil
  | blank hc h ih => exact .blank hc (ih hts hwritable)
  | @token t chars ts text ht h ih =>
    obtain ⟨hopens, hrest⟩ := hts
    obtain ⟨hwt, hwts⟩ := List.forall_mem_cons.1 hwritable
    obtain ⟨c, more, heq, hspace, hfront⟩ := front_of_spells ht hwt (follows_of_spaced h hrest)
    rw [heq]
    exact .token hspace hfront (ih hrest hwts)

end Token

namespace Expr

/-- The text writes the tree in the fewest tokens, with any blanks between them. -/
def IsWriting (e : Expr) (text : String) : Prop := Token.Spaced e.tokens text.toList

/-- A text is read as the tree that its tokens derive. -/
theorem parseCondition_of_scans {text : String} {ts : List Token} {e : Expr}
    (hscans : Token.Scans text.toList ts) (hderives : Derives .or ts e) :
    parseCondition text = .ok e := by
  obtain ⟨lexemes, hscan, hlexemes⟩ := hscans 0
  have hparse : ofTokens (Utf8.size text.toList) lexemes = .ok e :=
    ofTokens_eq_ok_iff.2 (hlexemes ▸ hderives)
  rw [parseCondition, readSource, Token.scan, hscan]
  show (ofTokens (Utf8.size text.toList) lexemes).mapError _ = _
  rw [hparse]
  rfl

theorem parseCondition_of_isWriting {e : Expr} (he : e.IsWritable) {text : String}
    (h : e.IsWriting text) : parseCondition text = .ok e := by
  have hderives : Derives .or e.tokens e :=
    (derives_tokens he.isPlain).weaken (by cases e.production <;> decide)
  have hturns : Token.Alternates true e.tokens := by
    rw [← List.append_nil e.tokens]
    exact Token.alternates_of_derives hderives trivial
  exact parseCondition_of_scans (Token.scans_of_spaced h hturns he.tokens) hderives

theorem exists_isWriting {e : Expr} (he : e.IsWritable) : ∃ text, e.IsWriting text := by
  obtain ⟨text, htext⟩ := Token.exists_spaced he.tokens
  refine ⟨String.ofList text, ?_⟩
  rw [IsWriting, String.toList_ofList]
  exact htext

/-- A tree of literals, references and operators can be written without a parenthesis that the
grammar does not require, and every text that writes it so is read as the tree. -/
theorem parseCondition_written {e : Expr} (he : e.IsWritable) :
    (∃ text, e.IsWriting text) ∧
      (∀ ts, Derives .or ts e → e.tokens.length ≤ ts.length) ∧
      ∀ text, e.IsWriting text → parseCondition text = .ok e := by
  refine ⟨exists_isWriting he, ?_, fun text => parseCondition_of_isWriting he⟩
  intro ts hts
  have hlength := length_tokens_le hts
  rwa [tokensAt_or] at hlength

/-- A tree with an operand in parentheses and one literal of each kind. -/
def handover : Expr :=
  .or (.and (.not (.eq (.ref ⟨"args.mode", .args, [.field "mode"]⟩) (.literal (.string "it's"))))
    (.ne (.literal (.int (-5))) (.literal .null))) (.literal (.bool false))

theorem isWriting_handover :
    handover.IsWriting "!($\x7bargs.mode\x7d=='it\\'s') &&-5 != null || false" := by
  have hfive : Token.Spells (.literal (.int (-5))) ['-', '5'] := by
    have hsigned : (Numeral.signed (-5)).toList = ['-', '5'] := by
      show (Numeral.signed (.negSucc 4)).toList = _
      rw [Numeral.toList_signed_neg, Numeral.digitChars_of_lt (by decide)]
      decide
    rw [← hsigned]
    exact .integer (-5)
  exact .token .not <| .token .leftParen <| .token (.ref _) <| .token .eqEq <|
    .token (.string (.inl rfl) _) <| .token .rightParen <| .blank rfl <| .token .and <|
    .token hfive <| .blank rfl <| .token .notEq <| .blank rfl <| .token .null <| .blank rfl <|
    .token .or <| .blank rfl <| .token .false .nil

theorem parseCondition_written_handover :
    handover.IsWritable ∧
      parseCondition "!($\x7bargs.mode\x7d=='it\\'s') &&-5 != null || false" = .ok handover := by
  have hcanonical : Reference.IsCanonical ⟨"args.mode", .args, [.field "mode"]⟩ := by
    refine ⟨by decide, trivial, ?_⟩
    exact List.forall_mem_singleton.2 (by decide : IsName "mode")
  have hwritable : handover.IsWritable :=
    ⟨⟨⟨hcanonical, trivial⟩, (by decide : Word.fits 63 (-5) = true), trivial⟩, trivial⟩
  exact ⟨hwritable, (parseCondition_written hwritable).2.2 _ isWriting_handover⟩

end Expr

end PipelineEngine
