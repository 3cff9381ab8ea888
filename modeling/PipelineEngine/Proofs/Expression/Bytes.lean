import Mathlib.Data.List.TakeWhile
import PipelineEngine.Proofs.Expression.Reference
import PipelineEngine.Proofs.Expression.Spelled

/-!
# Conditions byte by byte

A condition stands in memory as UTF-8.  `Bytes.parse` reads it there: it looks at one byte at a
time, steps over two bytes at a backslash, and cuts words, numbers and the text of references
out between two positions.  Every cut is checked: both of its ends must fall between two
characters, and so must a string be text when its bytes are put together again.

`Bytes.parse_eq` says that this is `Expr.readSource`, which reads characters: no check ever
fails, and the positions of all tokens and faults are the same.  A token starts with an ASCII
character and its class of characters is ASCII, so the bytes that a loop takes are those of
whole characters (`Bytes.takeWhile_bytes`).
-/

namespace PipelineEngine

namespace Utf8

/-- The bytes of a character list. -/
def bytes (s : List Char) : List UInt8 := s.flatMap String.utf8EncodeChar

@[simp] theorem bytes_nil : bytes [] = [] := rfl

theorem bytes_append (s t : List Char) : bytes (s ++ t) = bytes s ++ bytes t :=
  List.flatMap_append

theorem length_bytes (s : List Char) : (bytes s).length = size s := by
  induction s with
  | nil => rfl
  | cons c s ih =>
    rw [bytes, List.flatMap_cons, List.length_append, String.length_utf8EncodeChar, size_cons,
      ← ih, bytes]

theorem decode?_bytes (s : List Char) : decode? (bytes s) = some (String.ofList s) := by
  have h := decode?_encode (String.ofList s)
  rwa [encode, String.toList_ofList] at h

theorem Encodes.bytes_cons {c : Char} {lead : UInt8} {more : List UInt8} (h : Encodes c lead more)
    (s : List Char) : Utf8.bytes (c :: s) = lead :: (more ++ Utf8.bytes s) := by
  rw [Utf8.bytes, List.flatMap_cons, h.bytes, List.cons_append, Utf8.bytes]

theorem Encodes.utf8Size_eq {c : Char} {lead : UInt8} {more : List UInt8}
    (h : Encodes c lead more) : c.utf8Size = more.length + 1 := by
  rw [← String.length_utf8EncodeChar, h.bytes, List.length_cons]

end Utf8

namespace Bytes

open Utf8 (Encodes exists_encodes bytes size isTail)

/-! ## Bytes that are ASCII characters -/

/-- The ASCII character that a byte is. -/
def ascii? (b : UInt8) : Option Char :=
  if b < 0x80 then some (Char.ofNat b.toNat) else none

/-- Whether a byte is an ASCII character of the class. -/
def isOf (p : Char → Bool) (b : UInt8) : Bool := (ascii? b).any p

/-- A class that has only ASCII characters. -/
def IsAscii (p : Char → Bool) : Prop := ∀ c, p c = true → c.toNat < 0x80

variable {c quote : Char} {lead : UInt8} {more : List UInt8}

theorem ascii?_of_isTail {b : UInt8} (h : isTail b = true) : ascii? b = none := by
  rw [ascii?, if_neg]
  simp only [isTail, Bool.and_eq_true, decide_eq_true_eq, UInt8.le_iff_toNat_le] at h
  rw [UInt8.not_lt, UInt8.le_iff_toNat_le]
  exact h.1

theorem ascii?_lead (h : Encodes c lead more) :
    ascii? lead = if c.toNat < 0x80 then some c else none := by
  simp only [ascii?, UInt8.lt_iff_toNat_lt, UInt8.reduceToNat]
  rcases h.ascii with ⟨hc, hlead, -⟩ | ⟨hc, hlead⟩
  · rw [if_pos (by omega), if_pos hc, hlead, Char.ofNat_toNat]
  · rw [if_neg (by omega), if_neg (by omega)]

theorem ascii?_lead_of_lt (h : Encodes c lead more) (hc : c.toNat < 0x80) :
    ascii? lead = some c ∧ more = [] := by
  rcases h.ascii with ⟨-, -, hmore⟩ | ⟨hwide, -⟩
  · exact ⟨by rw [ascii?_lead h, if_pos hc], hmore⟩
  · omega

/-- An ASCII byte of a text is one of its characters. -/
theorem mem_of_ascii? {s : List Char} {b : UInt8} (hb : b ∈ bytes s) (hc : ascii? b = some c) :
    c ∈ s := by
  obtain ⟨d, hd, hb⟩ := List.mem_flatMap.1 hb
  obtain ⟨lead, more, h⟩ := exists_encodes d
  rw [h.bytes] at hb
  rcases List.mem_cons.1 hb with rfl | hmore
  · rw [ascii?_lead h] at hc
    split at hc
    · cases hc
      exact hd
    · cases hc
  · rw [ascii?_of_isTail (h.isTail_more b hmore)] at hc
    cases hc

theorem isOf_lead {p : Char → Bool} (hp : IsAscii p) (h : Encodes c lead more) :
    isOf p lead = p c := by
  rw [isOf, ascii?_lead h]
  split
  next hc => rfl
  next hc =>
    rw [Option.any_none]
    exact (Bool.eq_false_iff.2 fun hpc => hc (hp c hpc)).symm

theorem takeWhile_bytes {p : Char → Bool} (hp : IsAscii p) (s : List Char) :
    (bytes s).takeWhile (isOf p) = bytes (s.takeWhile p) := by
  induction s with
  | nil => rfl
  | cons c s ih =>
    obtain ⟨lead, more, h⟩ := exists_encodes c
    rw [h.bytes_cons, List.takeWhile_cons, List.takeWhile_cons, isOf_lead hp h]
    split
    next hc =>
      obtain ⟨-, rfl⟩ := ascii?_lead_of_lt h (hp c hc)
      rw [h.bytes_cons, List.nil_append, List.nil_append, ih]
    next => rfl

/-- The ASCII character that comes next. -/
def peek (s : List UInt8) : Option Char := s.head?.bind ascii?

theorem peek_bytes (s : List Char) :
    peek (bytes s) = s.head?.filter fun c => c.toNat < 0x80 := by
  cases s with
  | nil => rfl
  | cons c s =>
    obtain ⟨lead, more, h⟩ := exists_encodes c
    rw [h.bytes_cons, peek, List.head?_cons, Option.bind_some, ascii?_lead h]
    simp [Option.filter]

theorem peek_eq_some {s : List Char} (h : peek (bytes s) = some c) : ∃ r, s = c :: r := by
  rw [peek_bytes, Option.filter_eq_some_iff] at h
  cases s with
  | nil => cases h.1
  | cons d s =>
    cases h.1
    exact ⟨s, rfl⟩

theorem peek_any {p : Char → Bool} (hp : IsAscii p) (s : List Char) :
    (peek (bytes s)).any p = s.head?.any p := by
  rw [peek_bytes]
  cases s with
  | nil => rfl
  | cons c s =>
    cases hc : p c with
    | true => simp [Option.filter, hp c hc, hc]
    | false =>
      simp only [List.head?_cons, Option.any_some, hc, Option.filter]
      split <;> simp [hc]

/-! ## Cuts -/

/-- Why a reading of bytes stops. -/
inductive Stop where
  /-- A fault of the source. -/
  | fault (fault : SyntaxFault)
  /-- The text that starts at a position would be cut off inside a character. -/
  | cutInside (position : Nat)
  /-- The bytes of the string that starts at a position are no text. -/
  | notText (position : Nat)

/-- Whether the bytes that are left start with a character, or are none. -/
def atBoundary (s : List UInt8) : Bool := s.head?.all fun b => !isTail b

/-- The text of the first `n` of the bytes that are left at a position. -/
def cut (position : Nat) (s : List UInt8) (n : Nat) : Except Stop (List Char) :=
  if n ≤ s.length ∧ atBoundary s ∧ atBoundary (s.drop n) then
    match Utf8.decode? (s.take n) with
    | some text => .ok text.toList
    | none => .error (.cutInside position)
  else .error (.cutInside position)

theorem atBoundary_bytes (s : List Char) : atBoundary (bytes s) = true := by
  cases s with
  | nil => rfl
  | cons c s =>
    obtain ⟨lead, more, h⟩ := exists_encodes c
    simp [h.bytes_cons, atBoundary, h.isTail_lead]

theorem drop_bytes (s t : List Char) : (bytes (s ++ t)).drop (size s) = bytes t := by
  rw [Utf8.bytes_append, ← Utf8.length_bytes, List.drop_left]

/-- Whole characters are cut off. -/
theorem cut_bytes (position : Nat) (s t : List Char) :
    cut position (bytes (s ++ t)) (size s) = .ok s := by
  have hlength : size s ≤ (bytes (s ++ t)).length := by
    rw [Utf8.length_bytes, Utf8.size_append]
    exact Nat.le_add_right _ _
  have htake : (bytes (s ++ t)).take (size s) = bytes s := by
    rw [Utf8.bytes_append, ← Utf8.length_bytes, List.take_left]
  rw [cut, drop_bytes, if_pos ⟨hlength, atBoundary_bytes _, atBoundary_bytes _⟩, htake,
    Utf8.decode?_bytes]
  simp only [String.toList_ofList]

/-! ## One token -/

/-- Bytes of a string and a number of bytes taken, before what is read behind them. -/
def prepend (out : List UInt8) (n : Nat) (read : List UInt8 × Nat) : List UInt8 × Nat :=
  (out ++ read.1, n + read.2)

/-- Reads the bytes of a string after its opening quote, and counts the bytes taken.  A
backslash stands for the byte after it. -/
def readString (quote : Char) : List UInt8 → Option (List UInt8 × Nat)
  | [] => none
  | b :: rest =>
    if ascii? b = some '\\' then
      match rest with
      | [] => none
      | escaped :: rest => (readString quote rest).map (prepend [escaped] 2)
    else if ascii? b = some quote then some ([], 1)
    else (readString quote rest).map (prepend [b] 1)

/-- The token that starts at a position with the byte `b`, and the number of bytes it takes
of the rest. -/
def front (position : Nat) (b : UInt8) (rest : List UInt8) : Except Stop (Token × Nat) :=
  match ascii? b, peek rest with
  | none, _ => .error (.fault ⟨position, .unexpectedCharacter⟩)
  | some '(', _ => .ok (.leftParen, 0)
  | some ')', _ => .ok (.rightParen, 0)
  | some '=', some '=' => .ok (.eqEq, 1)
  | some '!', some '=' => .ok (.notEq, 1)
  | some '!', _ => .ok (.not, 0)
  | some '&', some '&' => .ok (.and, 1)
  | some '|', some '|' => .ok (.or, 1)
  | some '$', some '\x7b' => do
    let inside := rest.drop 1
    -- The rest of the source is searched for the brace as a text.
    let _ ← cut (position + 2) inside inside.length
    let n := (inside.takeWhile fun b => ascii? b != some '\x7d').length
    if n = inside.length then .error (.fault ⟨position, .unterminatedReference⟩)
    else do
      let text ← cut (position + 2) inside n
      let reference ← (Reference.read (position + 2) text).mapError .fault
      return (.ref reference, 1 + n + 1)
  | some c, next =>
    if c = '\'' ∨ c = '"' then
      match readString c rest with
      | none => .error (.fault ⟨position, .unterminatedString⟩)
      | some (out, n) =>
        match Utf8.decode? out with
        | some s => .ok (.literal (.string s), n)
        | none => .error (.notText position)
    else if Numeral.isDigit c ∨ (c = '-' ∧ next.any Numeral.isDigit) then do
      let n := (rest.takeWhile (isOf Token.isNumberChar)).length
      let text ← cut position (b :: rest) (1 + n)
      let t ← (Token.ofNumber position text).mapError .fault
      return (t, n)
    else if c.isAlpha ∨ c = '_' then do
      let n := (rest.takeWhile (isOf Token.isWordChar)).length
      let text ← cut position (b :: rest) (1 + n)
      let t ← (Token.ofWord position text).mapError .fault
      return (t, n)
    else .error (.fault ⟨position, .unexpectedCharacter⟩)

/-! ## All tokens -/

/-- The tokens of the bytes that are left at a position. -/
def scanFrom (position : Nat) (s : List UInt8) : Except Stop (List Lexeme) :=
  match s with
  | [] => .ok []
  | b :: rest =>
    if isOf Token.isSpace b then scanFrom (position + 1) rest
    else do
      let (t, n) ← front position b rest
      let ts ← scanFrom (position + 1 + n) (rest.drop n)
      return ⟨t, position⟩ :: ts
termination_by s.length
decreasing_by
  · simp only [List.length_cons]; omega
  · simp only [List.length_drop, List.length_cons]; omega

/-- The expression of a source, read from its bytes. -/
def parse (source : String) : Except Stop Expr := do
  let s := Utf8.encode source
  let ts ← scanFrom 0 s
  (Expr.ofTokens s.length ts).mapError .fault

/-! ## The bytes are read as the characters are -/

theorem isAscii_isDigit : IsAscii Numeral.isDigit := by
  intro c hc
  simp only [Numeral.isDigit, Bool.and_eq_true, decide_eq_true_eq, Char.le_def,
    UInt32.le_iff_toNat_le] at hc
  exact Nat.lt_of_le_of_lt hc.2 (by decide)

theorem isAscii_isAlpha : IsAscii Char.isAlpha := by
  intro c hc
  have hz : c.toNat ≤ 'z'.toNat := (Token.between_of_isAlpha hc).2
  exact Nat.lt_of_le_of_lt hz (by decide)

theorem IsAscii.or {p q : Char → Bool} (hp : IsAscii p) (hq : IsAscii q) :
    IsAscii fun c => p c || q c := by
  intro c hc
  rcases Bool.or_eq_true_iff.1 hc with hpc | hqc
  · exact hp c hpc
  · exact hq c hqc

theorem isAscii_eq {d : Char} (hd : d.toNat < 0x80) : IsAscii fun c => decide (c = d) := by
  intro c hc
  rw [of_decide_eq_true hc]
  exact hd

theorem isAscii_isSpace : IsAscii Token.isSpace :=
  (((isAscii_eq (by decide)).or (isAscii_eq (by decide))).or (isAscii_eq (by decide))).or
    (isAscii_eq (by decide))

theorem isAscii_isNumberChar : IsAscii Token.isNumberChar :=
  isAscii_isDigit.or (isAscii_eq (by decide))

theorem isAscii_isNameChar : IsAscii isNameChar := by
  have hdigit : IsAscii Char.isDigit := by
    intro c hc
    simp only [Char.isDigit, Bool.and_eq_true, decide_eq_true_eq, ge_iff_le,
      UInt32.le_iff_toNat_le] at hc
    exact Nat.lt_of_le_of_lt hc.2 (by decide)
  exact ((isAscii_isAlpha.or hdigit).or (isAscii_eq (by decide))).or (isAscii_eq (by decide))

theorem isAscii_isWordChar : IsAscii Token.isWordChar :=
  ((isAscii_isNameChar.or (isAscii_eq (by decide))).or (isAscii_eq (by decide))).or
    (isAscii_eq (by decide))

/-- The one byte of an ASCII character. -/
theorem exists_ascii (hc : c.toNat < 0x80) :
    ∃ b, ascii? b = some c ∧ ∀ s, bytes (c :: s) = b :: bytes s := by
  obtain ⟨lead, more, h⟩ := exists_encodes c
  obtain ⟨hlead, rfl⟩ := ascii?_lead_of_lt h hc
  exact ⟨lead, hlead, fun s => by rw [h.bytes_cons, List.nil_append]⟩

theorem size_ascii (hc : c.toNat < 0x80) (s : List Char) : size (c :: s) = 1 + size s := by
  obtain ⟨b, -, hb⟩ := exists_ascii hc
  rw [← Utf8.length_bytes, hb, List.length_cons, Utf8.length_bytes, Nat.add_comm]

/-! ### Strings -/

/-- The characters of a string and its bytes, each with what is left: the characters behind
it, and the number of bytes in it. -/
inductive StringAgrees (s : List Char) :
    Option (List Char × List Char) → Option (List UInt8 × Nat) → Prop
  | none : StringAgrees s none none
  | some {cs used r : List Char} (h : s = used ++ r) :
    StringAgrees s (some (cs, r)) (some (bytes cs, size used))

/-- Characters are taken before those of a string, and one of them is read. -/
theorem StringAgrees.cons {s : List Char} {x : Option (List Char × List Char)}
    {y : Option (List UInt8 × Nat)} (h : StringAgrees s x y) (taken : List Char) (c : Char) :
    StringAgrees (taken ++ s) (x.map fun (cs, r) => (c :: cs, r))
      (y.map (prepend (bytes [c]) (size taken))) := by
  cases h with
  | none => exact .none
  | @some cs used r h =>
    have hused : taken ++ s = (taken ++ used) ++ r := by rw [h, List.append_assoc]
    have hsome : StringAgrees (taken ++ s) (Option.some (c :: cs, r))
        (Option.some (bytes (c :: cs), size (taken ++ used))) := .some hused
    rwa [Utf8.size_append, ← List.singleton_append, Utf8.bytes_append] at hsome

theorem prepend_comp (out out' : List UInt8) (n n' : Nat) :
    prepend out n ∘ prepend out' n' = prepend (out ++ out') (n + n') := by
  funext read
  simp only [prepend, Function.comp_apply, List.append_assoc, Nat.add_assoc]

/-- Bytes that go on with a character are neither quotes nor backslashes. -/
theorem readString_append {s : List UInt8} (hs : ∀ b ∈ s, isTail b = true) (rest : List UInt8) :
    readString quote (s ++ rest) = (readString quote rest).map (prepend s s.length) := by
  induction s with
  | nil =>
    have hnone : prepend [] 0 = id := by
      funext read
      simp [prepend]
    rw [List.nil_append, List.length_nil, hnone, Option.map_id_apply]
  | cons b s ih =>
    obtain ⟨hb, hs⟩ := List.forall_mem_cons.1 hs
    have hascii := ascii?_of_isTail hb
    rw [List.cons_append, readString.eq_def]
    simp only [hascii, reduceCtorEq, if_false, ih hs, Option.map_map, prepend_comp,
      List.singleton_append, List.length_cons, Nat.add_comm 1]

/-- Where a character is read byte by byte, it is put before the rest as a whole. -/
theorem prepend_encodes {lead : UInt8} {more : List UInt8} (h : Encodes c lead more) (n : Nat) :
    prepend [lead] (n + 1) ∘ prepend more more.length =
      prepend (bytes [c]) (n + c.utf8Size) := by
  rw [prepend_comp, h.bytes_cons, Utf8.bytes_nil, List.append_nil, List.singleton_append,
    h.utf8Size_eq, Nat.add_assoc, Nat.add_comm 1]

theorem readString_bytes (hquote : quote.toNat < 0x80) (s : List Char) :
    StringAgrees s (Token.readString quote s) (readString quote (bytes s)) := by
  induction s using Token.readString.induct quote with
  | case1 => exact .none
  | case2 =>
    obtain ⟨b, hb, hbytes⟩ := exists_ascii (show '\\'.toNat < 0x80 by decide)
    rw [hbytes, Utf8.bytes_nil, readString.eq_def]
    simp only [hb, if_true]
    exact .none
  | case3 c rest ih =>
    obtain ⟨b, hb, hbytes⟩ := exists_ascii (show '\\'.toNat < 0x80 by decide)
    obtain ⟨lead, more, h⟩ := exists_encodes c
    have hread : readString quote (bytes ('\\' :: c :: rest)) =
        (readString quote (bytes rest)).map (prepend (bytes [c]) (size ['\\', c])) := by
      rw [hbytes, h.bytes_cons, readString.eq_def]
      simp only [hb, if_true, readString_append h.isTail_more, Option.map_map, prepend_encodes h]
      rfl
    rw [hread, Token.readString]
    exact ih.cons ['\\', c] c
  | case4 rest hlone hpair =>
    obtain ⟨b, hb, hbytes⟩ := exists_ascii hquote
    have hne : quote ≠ '\\' := by
      rintro rfl
      cases rest with
      | nil => exact hlone rfl rfl
      | cons d rest => exact hpair d rest rfl rfl
    have hread : readString quote (bytes (quote :: rest)) = some (bytes [], size [quote]) := by
      rw [hbytes, readString.eq_def]
      simp only [hb, Option.some.injEq, hne, if_false, if_true, size_ascii hquote]
      rfl
    rw [hread, Token.readString.eq_4 _ _ _ (by simpa using hlone) (by simpa using hpair),
      if_pos rfl]
    exact .some rfl
  | case5 c rest hlone hpair hquoted ih =>
    obtain ⟨lead, more, h⟩ := exists_encodes c
    have hne : c ≠ '\\' := by
      rintro rfl
      cases rest with
      | nil => exact hlone rfl rfl
      | cons d rest => exact hpair d rest rfl rfl
    have hlead : ∀ d, c ≠ d → ascii? lead ≠ some d := by
      intro d hd
      rw [ascii?_lead h]
      split <;> simp [hd]
    have hread : readString quote (bytes (c :: rest)) =
        (readString quote (bytes rest)).map (prepend (bytes [c]) (size [c])) := by
      rw [h.bytes_cons, readString.eq_def]
      simp only [hlead _ hne, hlead _ hquoted, if_false, readString_append h.isTail_more,
        Option.map_map, prepend_encodes h]
      rw [Nat.zero_add]
      rfl
    rw [hread, Token.readString.eq_4 _ _ _ (by simpa using hlone) (by simpa using hpair),
      if_neg hquoted]
    exact ih.cons [c] c

/-! ### Tokens -/

/-- A token after the character `c` and its bytes, each with what is left of the rest: the
characters behind the token, and the number of bytes in it. -/
inductive FrontAgrees (c : Char) (rest : List Char) :
    Except SyntaxFault (Token × List Char) → Except Stop (Token × Nat) → Prop
  | error (fault : SyntaxFault) : FrontAgrees c rest (.error fault) (.error (.fault fault))
  | ok {t : Token} {used r : List Char} (hc : c.toNat < 0x80) (h : rest = used ++ r) :
    FrontAgrees c rest (.ok (t, r)) (.ok (t, size used))

variable {position : Nat} {rest : List Char}

/-- A word or a number is cut off where its class of characters ends. -/
theorem FrontAgrees.of_class {p : Char → Bool} (hp : IsAscii p) (hc : c.toNat < 0x80)
    (hlead : ∀ s, bytes (c :: s) = lead :: bytes s)
    (read : Nat → List Char → Except SyntaxFault Token) :
    FrontAgrees c rest
      ((read position (c :: rest.takeWhile p)).map fun t => (t, rest.dropWhile p))
      (do
        let n := ((bytes rest).takeWhile (isOf p)).length
        let text ← cut position (lead :: bytes rest) (1 + n)
        let t ← (read position text).mapError .fault
        return (t, n)) := by
  have hsplit : rest = rest.takeWhile p ++ rest.dropWhile p :=
    List.takeWhile_append_dropWhile.symm
  have hcut : cut position (lead :: bytes rest) (1 + size (rest.takeWhile p)) =
      .ok (c :: rest.takeWhile p) := by
    have h := cut_bytes position (c :: rest.takeWhile p) (rest.dropWhile p)
    rwa [List.cons_append, ← hsplit, hlead, size_ascii hc] at h
  simp only [takeWhile_bytes hp, Utf8.length_bytes, hcut, bind, Except.bind]
  cases read position (c :: rest.takeWhile p) with
  | error fault => exact .error fault
  | ok t => exact .ok hc hsplit

/-- A reference ends at the first closing brace. -/
theorem FrontAgrees.of_reference (r : List Char) :
    FrontAgrees '$' ('\x7b' :: r)
      (match Text.cut? ['\x7d'] r with
        | some (inner, after) =>
          (Reference.read (position + 2) inner).map fun reference => (.ref reference, after)
        | none => .error ⟨position, .unterminatedReference⟩)
      (do
        let _ ← cut (position + 2) (bytes r) (bytes r).length
        let n := ((bytes r).takeWhile fun b => ascii? b != some '\x7d').length
        if n = (bytes r).length then .error (.fault ⟨position, .unterminatedReference⟩)
        else do
          let text ← cut (position + 2) (bytes r) n
          let reference ← (Reference.read (position + 2) text).mapError .fault
          return (.ref reference, 1 + n + 1)) := by
  have hwhole : cut (position + 2) (bytes r) (bytes r).length = .ok r := by
    have h := cut_bytes (position + 2) r []
    rwa [List.append_nil, ← Utf8.length_bytes] at h
  have hpass : ∀ inner : List Char, '\x7d' ∉ inner →
      ∀ b ∈ bytes inner, (ascii? b != some '\x7d') = true := by
    intro inner hinner b hb
    rw [bne_iff_ne]
    intro heq
    exact hinner (mem_of_ascii? hb heq)
  by_cases hbrace : '\x7d' ∈ r
  · obtain ⟨inner, after, rfl, hinner⟩ := List.eq_append_cons_of_mem hbrace
    obtain ⟨b, hb, hbytes⟩ := exists_ascii (show '\x7d'.toNat < 0x80 by decide)
    have htake : (bytes (inner ++ '\x7d' :: after)).takeWhile (fun b => ascii? b != some '\x7d') =
        bytes inner := by
      rw [Utf8.bytes_append, hbytes, List.takeWhile_append_of_pos (hpass inner hinner),
        List.takeWhile_cons_of_neg (by simp [hb]), List.append_nil]
    have hne : size inner ≠ size (inner ++ '\x7d' :: after) := by
      rw [Utf8.size_append, size_ascii (by decide)]
      omega
    rw [hwhole, Text.cut?_append_cons hinner]
    simp only [htake, Utf8.length_bytes, cut_bytes, bind, Except.bind, hne, if_false]
    cases Reference.read (position + 2) inner with
    | error fault => exact .error fault
    | ok reference =>
      have hused : '\x7b' :: (inner ++ '\x7d' :: after) =
          ('\x7b' :: (inner ++ ['\x7d'])) ++ after := by simp
      have hsize : size ('\x7b' :: (inner ++ ['\x7d'])) = 1 + size inner + 1 := by
        rw [size_ascii (by decide), Utf8.size_append, size_ascii (by decide), Utf8.size_nil]
        omega
      have hok : FrontAgrees '$' _ (.ok (.ref reference, after))
          (.ok (.ref reference, size ('\x7b' :: (inner ++ ['\x7d'])))) := .ok (by decide) hused
      rwa [hsize] at hok
  · have hcut : Text.cut? ['\x7d'] r = none := by
      cases hcut : Text.cut? ['\x7d'] r with
      | none => rfl
      | some parts =>
        rw [Text.cut?_eq_some hcut] at hbrace
        simp at hbrace
    rw [hwhole, hcut, List.takeWhile_eq_self_iff.2 (hpass r hbrace)]
    simp only [bind, Except.bind, if_true]
    exact .error _

/-- Where no mark starts, a string, a number or a word does. -/
theorem front_other {b : UInt8} {s : List UInt8} (hb : ascii? b = some c) (hopen : c ≠ '(')
    (hclose : c ≠ ')') (hequals : c = '=' → peek s ≠ some '=') (hnot : c ≠ '!')
    (hand : c = '&' → peek s ≠ some '&') (hor : c = '|' → peek s ≠ some '|')
    (hdollar : c = '$' → peek s ≠ some '\x7b') :
    front position b s =
      if c = '\'' ∨ c = '"' then
        match readString c s with
        | none => .error (.fault ⟨position, .unterminatedString⟩)
        | some (out, n) =>
          match Utf8.decode? out with
          | some s => .ok (.literal (.string s), n)
          | none => .error (.notText position)
      else if Numeral.isDigit c ∨ (c = '-' ∧ (peek s).any Numeral.isDigit) then do
        let n := (s.takeWhile (isOf Token.isNumberChar)).length
        let text ← cut position (b :: s) (1 + n)
        let t ← (Token.ofNumber position text).mapError .fault
        return (t, n)
      else if c.isAlpha ∨ c = '_' then do
        let n := (s.takeWhile (isOf Token.isWordChar)).length
        let text ← cut position (b :: s) (1 + n)
        let t ← (Token.ofWord position text).mapError .fault
        return (t, n)
      else .error (.fault ⟨position, .unexpectedCharacter⟩) := by
  rw [front, hb]
  generalize peek s = next at hequals hand hor hdollar
  split
  case h_10 hchar _ _ _ _ _ =>
    cases hchar
    rfl
  all_goals simp_all

theorem front_bytes (h : Encodes c lead more) (position : Nat) (rest : List Char) :
    FrontAgrees c rest (Token.front position c rest)
      (front position lead (more ++ bytes rest)) := by
  by_cases hc : c.toNat < 0x80
  case neg =>
    have hclass : ∀ {p : Char → Bool}, IsAscii p → p c = false :=
      fun hp => Bool.eq_false_iff.2 fun hpc => hc (hp c hpc)
    have hne : ∀ {d : Char}, d.toNat < 0x80 → c ≠ d := by
      rintro d hd rfl
      exact hc hd
    have hmarks : c ∉ ['(', ')', '=', '!', '&', '|', '$'] := by
      intro hmem
      have hascii : ['(', ')', '=', '!', '&', '|', '$'].all (·.toNat < 0x80) = true := rfl
      exact hc (of_decide_eq_true (List.all_eq_true.1 hascii c hmem))
    have hquotes : ¬(c = '\'' ∨ c = '"') := not_or.2 ⟨hne (by decide), hne (by decide)⟩
    have hnumber : ¬(Numeral.isDigit c = true ∨
        (c = '-' ∧ rest.head?.any Numeral.isDigit = true)) :=
      not_or.2 ⟨Bool.eq_false_iff.1 (hclass isAscii_isDigit), fun h => hne (by decide) h.1⟩
    have hword : ¬(c.isAlpha = true ∨ c = '_') :=
      not_or.2 ⟨Bool.eq_false_iff.1 (hclass isAscii_isAlpha), hne (by decide)⟩
    have hlead : ascii? lead = none := by rw [ascii?_lead h, if_neg hc]
    rw [Token.front_ordinary hmarks, if_neg hquotes, if_neg hnumber, if_neg hword, front, hlead]
    exact .error _
  case pos =>
    obtain ⟨hlead, rfl⟩ := ascii?_lead_of_lt h hc
    have hcons : ∀ s, bytes (c :: s) = lead :: bytes s := by
      intro s
      rw [h.bytes_cons, List.nil_append]
    -- The second character of a mark is its next byte.
    have hnext : ∀ {d : Char} {r : List Char}, d.toNat < 0x80 → peek (bytes (d :: r)) = some d := by
      intro d r hd
      simp [peek_bytes, Option.filter, hd]
    have hpeek : ∀ {d : Char}, (∀ r, rest = d :: r → False) → peek (bytes rest) ≠ some d :=
      fun hd heq => (peek_eq_some heq).elim hd
    rw [List.nil_append]
    unfold Token.front
    split
    case h_1 | h_2 =>
      rw [front, hlead]
      exact .ok hc (List.nil_append _).symm
    case h_3 | h_4 | h_6 | h_7 =>
      rw [front, hlead, hnext (by decide)]
      exact .ok hc List.singleton_append.symm
    case h_5 hequals =>
      have hne := hpeek hequals
      rw [front, hlead]
      generalize peek (bytes rest) = next at hne
      split
      case h_6 => exact .ok hc (List.nil_append _).symm
      case h_10 hnot hchar _ _ _ _ _ => exact absurd (Option.some.inj hchar).symm hnot
      all_goals simp_all
    case h_8 r =>
      obtain ⟨b, -, hb⟩ := exists_ascii (show '\x7b'.toNat < 0x80 by decide)
      rw [front, hlead, hnext (by decide), hb, List.drop_one, List.tail_cons]
      exact FrontAgrees.of_reference r
    case h_9 hopen hclose hnot hequals _ hand hor hdollar =>
      rw [front_other hlead (fun heq => hopen heq) (fun heq => hclose heq)
        (fun heq => hpeek fun r => hequals r heq) (fun heq => hnot heq)
        (fun heq => hpeek fun r => hand r heq) (fun heq => hpeek fun r => hor r heq)
        (fun heq => hpeek fun r => hdollar r heq), peek_any isAscii_isDigit]
      split
      next hquote =>
        have hagrees := readString_bytes hc rest
        generalize Token.readString c rest = chars at hagrees
        generalize readString c (bytes rest) = read at hagrees
        cases hagrees with
        | none => exact .error _
        | some hused =>
          simp only [Utf8.decode?_bytes]
          exact .ok hc hused
      next =>
        split
        next => exact FrontAgrees.of_class isAscii_isNumberChar hc hcons Token.ofNumber
        next =>
          split
          next => exact FrontAgrees.of_class isAscii_isWordChar hc hcons Token.ofWord
          next => exact .error _

/-! ### All tokens -/

/-- The bytes of a text are cut into the same tokens at the same positions. -/
theorem scanFrom_bytes (position : Nat) (s : List Char) :
    scanFrom position (bytes s) = (Token.scanFrom position s).mapError .fault := by
  induction position, s using Token.scanFrom.induct with
  | case1 position =>
    rw [Utf8.bytes_nil, scanFrom, Token.scanFrom]
    rfl
  | case2 position c rest hspace ih =>
    obtain ⟨lead, more, h⟩ := exists_encodes c
    obtain ⟨-, rfl⟩ := ascii?_lead_of_lt h (isAscii_isSpace c hspace)
    rw [h.bytes_cons, List.nil_append, scanFrom, isOf_lead isAscii_isSpace h, if_pos hspace, ih,
      Token.scanFrom, if_pos hspace]
  | case3 position c rest hspace fault hfront =>
    obtain ⟨lead, more, h⟩ := exists_encodes c
    have hagrees := front_bytes h position rest
    rw [hfront] at hagrees
    rw [h.bytes_cons, scanFrom, isOf_lead isAscii_isSpace h, if_neg hspace,
      Token.scanFrom_cons hspace, hfront]
    generalize front position lead (more ++ bytes rest) = read at hagrees
    cases hagrees
    rfl
  | case4 position c rest hspace t r hfront _ taken ih =>
    obtain ⟨lead, more, h⟩ := exists_encodes c
    have hagrees := front_bytes h position rest
    rw [hfront] at hagrees
    rw [h.bytes_cons, scanFrom, isOf_lead isAscii_isSpace h, if_neg hspace,
      Token.scanFrom_cons hspace, hfront]
    generalize front position lead (more ++ bytes rest) = read at hagrees
    cases hagrees with
    | @ok _ used _ hc hused =>
      obtain ⟨-, rfl⟩ := ascii?_lead_of_lt h hc
      have htaken : position + taken = position + 1 + size used := by
        simp only [taken, hused, size_ascii hc, Utf8.size_append]
        omega
      have hdrop : ([] ++ bytes rest).drop (size used) = bytes r := by
        rw [List.nil_append, hused, drop_bytes]
      show (do
        let ts ← scanFrom (position + 1 + size used) (([] ++ bytes rest).drop (size used))
        return (⟨t, position⟩ : Lexeme) :: ts) = _
      rw [hdrop, ← htaken, ih]
      show _ = Except.mapError Stop.fault
        ((Token.scanFrom (position + taken) r).map ((⟨t, position⟩ : Lexeme) :: ·))
      cases Token.scanFrom (position + taken) r with
      | error fault => rfl
      | ok ts => rfl

/-- Reading the bytes of a source and reading its characters give the same: no text is cut off
inside a character, and the bytes of every string are text. -/
theorem parse_eq (source : String) :
    parse source = (Expr.readSource source.toList).mapError .fault := by
  have hlength : (bytes source.toList).length = size source.toList := Utf8.length_bytes _
  have hencode : Utf8.encode source = bytes source.toList := rfl
  rw [parse, Expr.readSource, Token.scan, hencode, hlength, scanFrom_bytes]
  cases Token.scanFrom 0 source.toList with
  | error fault => rfl
  | ok ts => rfl

end Bytes
end PipelineEngine
