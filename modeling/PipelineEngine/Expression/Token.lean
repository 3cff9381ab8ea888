import PipelineEngine.Decimal.Read
import PipelineEngine.Expression.Path
import PipelineEngine.Text.Cut
import PipelineEngine.Word

/-!
# Tokens of expressions

A condition is first cut into tokens, each with the number of bytes before it.
Blanks between tokens are the ASCII ones.  A word is a keyword or a reference
written without braces.
-/

namespace PipelineEngine

/-- A token of an expression. -/
inductive Token where
  | leftParen
  | rightParen
  | ref (r : Reference)
  | literal (v : Value)
  | eqEq
  | notEq
  | and
  | or
  | not
deriving Inhabited

/-- A token and the number of bytes before it. -/
structure Lexeme where
  token : Token
  offset : Nat
deriving Inhabited

namespace Token

/-- The blanks between tokens. -/
def isSpace (c : Char) : Bool := c = ' ' || c = '\t' || c = '\n' || c = '\r'

/-- A character of a word. -/
def isWordChar (c : Char) : Bool := isNameChar c || c = '.' || c = '[' || c = ']'

/-- A character of a number. -/
def isNumberChar (c : Char) : Bool := Numeral.isDigit c || c = '.'

/-- Reads a string after its opening quote.  A backslash stands for the character
after it. -/
def readString (quote : Char) : List Char → Option (List Char × List Char)
  | [] => none
  | '\\' :: [] => none
  | '\\' :: c :: rest => (readString quote rest).map fun (cs, r) => (c :: cs, r)
  | c :: rest =>
    if c = quote then some ([], rest)
    else (readString quote rest).map fun (cs, r) => (c :: cs, r)

/-- The value of a number: an integer when the text is one of 64 bits, else the
nearest double. -/
def number? (text : List Char) : Option Value :=
  match (Numeral.integer? 10 text).filter fun n => Word.fits 63 n with
  | some n => some (.int n)
  | none => (Decimal.nearest? text).map fun x => .number (.float x)

/-- The token of a number. -/
def ofNumber (offset : Nat) (text : List Char) : Except SyntaxFault Token :=
  match number? text with
  | some v => .ok (.literal v)
  | none => .error ⟨offset, .invalidNumber (String.ofList text)⟩

/-- The token of a word. -/
def ofWord (offset : Nat) (text : List Char) : Except SyntaxFault Token :=
  match String.ofList text with
  | "true" => .ok (.literal (.bool true))
  | "false" => .ok (.literal (.bool false))
  | "null" => .ok (.literal .null)
  | "and" => .ok .and
  | "or" => .ok .or
  | "not" => .ok .not
  | _ => (Reference.read offset text).map .ref

/-- Reads the token at the front of `c :: rest` and gives what follows it. -/
def front (offset : Nat) (c : Char) (rest : List Char) : Except SyntaxFault (Token × List Char) :=
  match c, rest with
  | '(', _ => .ok (.leftParen, rest)
  | ')', _ => .ok (.rightParen, rest)
  | '=', '=' :: r => .ok (.eqEq, r)
  | '!', '=' :: r => .ok (.notEq, r)
  | '!', _ => .ok (.not, rest)
  | '&', '&' :: r => .ok (.and, r)
  | '|', '|' :: r => .ok (.or, r)
  | '$', '\x7b' :: r =>
    match Text.cut? ['\x7d'] r with
    | some (inner, after) =>
      (Reference.read (offset + 2) inner).map fun reference => (.ref reference, after)
    | none => .error ⟨offset, .unterminatedReference⟩
  | _, _ =>
    if c = '\'' ∨ c = '"' then
      match readString c rest with
      | some (cs, r) => .ok (.literal (.string (String.ofList cs)), r)
      | none => .error ⟨offset, .unterminatedString⟩
    else if Numeral.isDigit c ∨ (c = '-' ∧ (rest.head?.any Numeral.isDigit)) then
      (ofNumber offset (c :: rest.takeWhile isNumberChar)).map fun t =>
        (t, rest.dropWhile isNumberChar)
    else if c.isAlpha ∨ c = '_' then
      (ofWord offset (c :: rest.takeWhile isWordChar)).map fun t => (t, rest.dropWhile isWordChar)
    else .error ⟨offset, .unexpectedCharacter⟩

/-! ## A token takes at least one character -/

theorem length_readString {quote : Char} {s cs r : List Char}
    (h : readString quote s = some (cs, r)) : r.length < s.length := by
  induction s using readString.induct quote generalizing cs with
  | case1 => simp [readString] at h
  | case2 => simp [readString] at h
  | case3 c rest ih =>
    simp only [readString, Option.map_eq_some_iff] at h
    obtain ⟨⟨cs', r'⟩, h', heq⟩ := h
    simp only [Prod.mk.injEq] at heq
    obtain ⟨rfl, rfl⟩ := heq
    have := ih h'
    simp only [List.length_cons]
    omega
  | case4 rest hrest hlong =>
    rw [readString.eq_4 _ _ _ (by simpa using hrest) (by simpa using hlong)] at h
    simp only [ite_true, Option.some.injEq, Prod.mk.injEq] at h
    obtain ⟨-, rfl⟩ := h
    simp
  | case5 c rest hrest hlong hne ih =>
    rw [readString.eq_4 _ _ _ (by simpa using hrest) (by simpa using hlong)] at h
    rw [if_neg hne] at h
    obtain ⟨⟨cs', r'⟩, h', heq⟩ := Option.map_eq_some_iff.1 h
    simp only [Prod.mk.injEq] at heq
    obtain ⟨rfl, rfl⟩ := heq
    have := ih h'
    simp only [List.length_cons]
    omega

theorem length_cut? {mark s before after : List Char}
    (h : Text.cut? mark s = some (before, after)) : after.length ≤ s.length := by
  rw [Text.cut?_eq_some h]
  simp only [List.length_append]
  omega

theorem length_front {offset : Nat} {c : Char} {rest r : List Char} {t : Token}
    (h : front offset c rest = .ok (t, r)) : r.length ≤ rest.length := by
  have hdrop (p : Char → Bool) : (rest.dropWhile p).length ≤ rest.length :=
    (List.dropWhile_suffix p).sublist.length_le
  unfold front at h
  split at h
  case h_1 | h_2 | h_5 => cases h; exact Nat.le_refl _
  case h_3 | h_4 | h_6 | h_7 => cases h; simp
  case h_8 =>
    split at h
    · rename_i r' _ inner after hcut
      cases hr : Reference.read (offset + 2) inner with
      | error e => simp [hr, Except.map] at h
      | ok reference =>
        simp only [hr, Except.map, Except.ok.injEq, Prod.mk.injEq] at h
        obtain ⟨-, rfl⟩ := h
        have := length_cut? hcut
        simp only [List.length_cons]
        omega
    · cases h
  case h_9 =>
    split at h
    · split at h
      · rename_i hs
        cases h
        exact Nat.le_of_lt (length_readString hs)
      · cases h
    · split at h
      · cases hn : ofNumber offset (c :: rest.takeWhile isNumberChar) with
        | error e => simp [hn, Except.map] at h
        | ok w =>
          simp only [hn, Except.map, Except.ok.injEq, Prod.mk.injEq] at h
          obtain ⟨-, rfl⟩ := h
          exact hdrop _
      · split at h
        · cases hw : ofWord offset (c :: rest.takeWhile isWordChar) with
          | error e => simp [hw, Except.map] at h
          | ok w =>
            simp only [hw, Except.map, Except.ok.injEq, Prod.mk.injEq] at h
            obtain ⟨-, rfl⟩ := h
            exact hdrop _
        · cases h

/-- The tokens of a text that stands after `offset` bytes. -/
def scanFrom (offset : Nat) (s : List Char) : Except SyntaxFault (List Lexeme) :=
  match s with
  | [] => .ok []
  | c :: rest =>
    if isSpace c then scanFrom (offset + 1) rest
    else
      match h : front offset c rest with
      | .error e => .error e
      | .ok (t, r) =>
        have : r.length ≤ rest.length := length_front h
        let taken := Utf8.size (c :: rest) - Utf8.size r
        (scanFrom (offset + taken) r).map (⟨t, offset⟩ :: ·)
termination_by s.length
decreasing_by
  · simp only [List.length_cons]; omega
  · simp only [List.length_cons]; omega

/-- The tokens of a source. -/
def scan (source : List Char) : Except SyntaxFault (List Lexeme) := scanFrom 0 source

end Token

end PipelineEngine
