import PipelineEngine.Proofs.Expression.Bytes

/-!
# Where faults point

The position of a fault counts bytes, and it falls between two characters of the source
(`Utf8.IsBoundary`).  Every reader of a part says so about the part that it was given, with the
number of bytes before it: a reference about the text between its braces, which has blanks
around it that may be wider than a byte, and a token about what starts at its offset.  The
parser points to the tokens or to the end (`Expr.Within`).

`Expr.parseCondition_bytes` puts this together with the reading of bytes.
-/

namespace PipelineEngine

open Bytes (IsAscii)

namespace Utf8

/-- A position between two characters of a text that stands behind `offset` bytes. -/
def IsBoundary (offset : Nat) (s : List Char) (n : Nat) : Prop :=
  ∃ before after, s = before ++ after ∧ n = offset + size before

variable {offset n : Nat} {s t : List Char}

theorem isBoundary_start (offset : Nat) (s : List Char) : IsBoundary offset s offset :=
  ⟨[], s, rfl, rfl⟩

theorem isBoundary_of_append (offset : Nat) (s t : List Char) :
    IsBoundary offset (s ++ t) (offset + size s) :=
  ⟨s, t, rfl, rfl⟩

/-- A position in a text is one in a longer text. -/
theorem IsBoundary.append (h : IsBoundary offset s n) (t : List Char) :
    IsBoundary offset (s ++ t) n := by
  obtain ⟨before, after, rfl, rfl⟩ := h
  exact ⟨before, after ++ t, by rw [List.append_assoc], rfl⟩

/-- A position in what stands behind a text. -/
theorem IsBoundary.after (h : IsBoundary (offset + size s) t n) : IsBoundary offset (s ++ t) n := by
  obtain ⟨before, after, rfl, rfl⟩ := h
  exact ⟨s ++ before, after, by rw [List.append_assoc], by rw [size_append, Nat.add_assoc]⟩

theorem IsBoundary.after_cons {c : Char} (h : IsBoundary (offset + 1) s n) (hc : c.toNat < 0x80) :
    IsBoundary offset (c :: s) n := by
  have hsize : size [c] = 1 := Bytes.size_ascii hc []
  rw [← hsize] at h
  exact h.after

theorem size_of_ascii (h : ∀ c ∈ s, c.toNat < 0x80) : size s = s.length := by
  induction s with
  | nil => rfl
  | cons c s ih =>
    obtain ⟨hc, hs⟩ := List.forall_mem_cons.1 h
    rw [Bytes.size_ascii hc, ih hs, List.length_cons, Nat.add_comm]

theorem size_takeWhile {p : Char → Bool} (hp : IsAscii p) (s : List Char) :
    size (s.takeWhile p) = (s.takeWhile p).length :=
  size_of_ascii fun c hc => hp c (List.mem_takeWhile_imp hc)

theorem utf8ByteSize_ofList (s : List Char) : (String.ofList s).utf8ByteSize = size s := by
  induction s with
  | nil => rfl
  | cons c s ih =>
    rw [← List.singleton_append, String.ofList_append, String.utf8ByteSize_append, ih]
    exact congrArg (· + size s) String.utf8ByteSize_singleton

/-- In the text of a source, such a position is one at which it may be cut. -/
theorem IsBoundary.isValid {source : String} (h : IsBoundary 0 source.toList n) :
    n ≤ source.utf8ByteSize ∧ (String.Pos.Raw.mk n).IsValid source := by
  obtain ⟨before, after, hsource, hn⟩ := h
  have hsize : (String.ofList before).rawEndPos.byteIdx = size before := by
    rw [String.byteIdx_rawEndPos, utf8ByteSize_ofList]
  have hvalid : (String.Pos.Raw.mk n).IsValid source := by
    refine String.Pos.Raw.isValid_iff_exists_append.2
      ⟨String.ofList before, String.ofList after, ?_, ?_⟩
    · rw [← String.ofList_append, ← hsource, String.ofList_toList]
    · rw [String.Pos.Raw.ext_iff, hsize, hn, Nat.zero_add]
  exact ⟨hvalid.le_rawEndPos, hvalid⟩

end Utf8

open Utf8 (IsBoundary)

/-! ## References -/

namespace Reference

variable {offset : Nat} {s : List Char} {fault : SyntaxFault}

theorem readIndex_error (h : readIndex offset s = .error fault) :
    IsBoundary offset s fault.offset := by
  have hend : IsBoundary offset s (offset + (s.takeWhile Numeral.isDigit).length) := by
    have h := Utf8.isBoundary_of_append offset (s.takeWhile Numeral.isDigit)
      (s.dropWhile Numeral.isDigit)
    rwa [List.takeWhile_append_dropWhile, Utf8.size_takeWhile Bytes.isAscii_isDigit] at h
  have hstart := Utf8.isBoundary_start offset s
  rw [readIndex] at h
  split at h
  · cases h
    exact hstart
  · split at h
    · split at h
      · split at h
        · cases h
        · cases h
          exact hstart
      · cases h
        exact hstart
    · cases h
      exact hend

theorem readIndex_ok {n next : Nat} {r : { r : List Char // r.length < s.length }}
    (h : readIndex offset s = .ok (n, next, r)) :
    ∃ used, s = used ++ r.1 ∧ next = offset + Utf8.size used := by
  obtain ⟨digits, hs, hdigits, -, hnext⟩ := exists_numeral_of_readIndex h
  have hsize : Utf8.size digits = digits.length := Utf8.size_of_ascii fun c hc =>
    Bytes.isAscii_isDigit c ((Numeral.isDigit_of_digits? hdigits).2 c hc)
  refine ⟨digits ++ [']'], ?_, ?_⟩
  · rw [List.append_assoc, List.singleton_append]
    exact hs
  · rw [hnext, Utf8.size_append, hsize, Nat.add_assoc]
    rfl

/-- An index and then the segments behind it. -/
theorem index_error {α : Type} (f : Nat → List PathSegment → α)
    {go : Nat × Nat × { r : List Char // r.length < s.length } → Reading α}
    (hgo : ∀ n next r, go (n, next, r) = (readSegments next r.1 >>= fun more => .ok (f n more)))
    (hsegments : ∀ next r, r.length < s.length → ∀ {fault}, readSegments next r = .error fault →
      IsBoundary next r fault.offset)
    (h : (readIndex offset s >>= go) = .error fault) : IsBoundary offset s fault.offset := by
  rcases Fallible.bind_eq_error_iff.1 h with h | ⟨⟨n, next, r⟩, hindex, h⟩
  · exact readIndex_error h
  · rw [hgo] at h
    have hrest := hsegments next r.1 r.2 (Fallible.bind_pure_eq_error_iff.1 h)
    obtain ⟨used, hused, hnext⟩ := readIndex_ok hindex
    rw [hnext] at hrest
    rw [hused]
    exact hrest.after

theorem readSegments_error (h : readSegments offset s = .error fault) :
    IsBoundary offset s fault.offset := by
  induction offset, s using readSegments.induct generalizing fault with
  | case1 offset =>
    rw [readSegments] at h
    cases h
  | case2 offset rest _ =>
    rename_i hname
    rw [readSegments, dif_pos hname] at h
    cases h
    exact (Utf8.isBoundary_start _ _).after_cons (by decide)
  | case3 offset rest _ hname =>
    rename_i ih
    rw [readSegments, dif_neg hname] at h
    have hrest := ih (Fallible.bind_pure_eq_error_iff.1 h)
    rw [← Utf8.size_takeWhile Bytes.isAscii_isNameChar] at hrest
    have hafter := hrest.after
    rw [List.takeWhile_append_dropWhile] at hafter
    exact hafter.after_cons (by decide)
  | case4 offset rest ih =>
    rw [readSegments] at h
    exact (index_error (fun n more => .index n :: more) (fun _ _ _ => rfl)
      (fun next r hr _ h => ih next r hr h) h).after_cons (by decide)
  | case5 offset s hnil hdot hbracket =>
    rw [readSegments] at h
    · cases h
      exact Utf8.isBoundary_start _ _
    · exact hnil
    · exact hdot
    · exact hbracket

theorem read_error {text : List Char} (h : read offset text = .error fault) :
    IsBoundary offset text fault.offset := by
  obtain ⟨trailing, -, htext⟩ := Text.exists_trim text
  suffices hinner : IsBoundary (offset + Utf8.size (text.takeWhile Text.isBlank)) (Text.trim text)
      fault.offset by
    rw [htext]
    exact (hinner.append trailing).after
  rw [read] at h
  generalize offset + Utf8.size (text.takeWhile Text.isBlank) = base at h ⊢
  generalize Text.trim text = inner at h ⊢
  have hsplit : inner.takeWhile isNameChar ++ inner.dropWhile isNameChar = inner :=
    List.takeWhile_append_dropWhile
  have hname := Utf8.size_takeWhile Bytes.isAscii_isNameChar inner
  generalize inner.takeWhile isNameChar = name at h hsplit hname
  generalize inner.dropWhile isNameChar = rest at h hsplit
  have hsegments : ∀ {f : List PathSegment → Reference},
      (do return f (← readSegments (base + name.length) rest)) = Except.error fault →
        IsBoundary base (name ++ rest) fault.offset := by
    intro f h
    have hrest := readSegments_error (Fallible.bind_pure_eq_error_iff.1 h)
    rw [← hname] at hrest
    exact hrest.after
  rw [← hsplit]
  split at h
  next =>
    cases h
    exact Utf8.isBoundary_start _ _
  next =>
    dsimp only at h
    split at h
    case h_1 | h_2 | h_3 | h_5 => exact hsegments h
    case h_4 =>
      split at h
      next rest =>
        have hrest := index_error (fun n more => ⟨String.ofList inner, .pipeline n, more⟩)
          (fun _ _ _ => rfl) (fun _ _ _ _ h => readSegments_error h) h
        rw [← hname] at hrest
        exact (hrest.after_cons (by decide)).after
      next =>
        cases h
        rw [← hname]
        exact Utf8.isBoundary_of_append _ _ _

end Reference

/-! ## Tokens -/

namespace Token

variable {offset : Nat} {c : Char} {rest s : List Char} {fault : SyntaxFault}

theorem ofNumber_error {text : List Char} (h : ofNumber offset text = .error fault) :
    IsBoundary offset text fault.offset := by
  rw [ofNumber] at h
  split at h
  · cases h
  · cases h
    exact Utf8.isBoundary_start _ _

theorem ofWord_error {text : List Char} (h : ofWord offset text = .error fault) :
    IsBoundary offset text fault.offset := by
  rw [ofWord] at h
  split at h
  case h_7 => exact Reference.read_error (Fallible.map_eq_error_iff.1 h)
  all_goals cases h

/-- What is read of a class of characters stands at the front. -/
theorem isBoundary_of_class {p : Char → Bool} {n : Nat}
    (h : IsBoundary offset (c :: rest.takeWhile p) n) : IsBoundary offset (c :: rest) n := by
  have hwhole := h.append (rest.dropWhile p)
  rwa [List.cons_append, List.takeWhile_append_dropWhile] at hwhole

theorem front_error (h : front offset c rest = .error fault) :
    IsBoundary offset (c :: rest) fault.offset := by
  have hstart := Utf8.isBoundary_start offset (c :: rest)
  unfold front at h
  split at h
  case h_8 r =>
    split at h
    next inner after hcut =>
      have hinner := Reference.read_error (Fallible.map_eq_error_iff.1 h)
      have hsize : offset + 2 = offset + Utf8.size ['$', '\x7b'] := rfl
      rw [hsize] at hinner
      rw [Text.cut?_eq_some hcut]
      exact (hinner.after.append ['\x7d']).append after
    next =>
      cases h
      exact hstart
  case h_9 =>
    split at h
    · split at h
      · cases h
      · cases h
        exact hstart
    · split at h
      · exact isBoundary_of_class (ofNumber_error (Fallible.map_eq_error_iff.1 h))
      · split at h
        · exact isBoundary_of_class (ofWord_error (Fallible.map_eq_error_iff.1 h))
        · cases h
          exact hstart
  all_goals cases h

/-- What is left of a text behind a token is its end. -/
theorem front_ok {t : Token} {r : List Char} (h : front offset c rest = .ok (t, r)) :
    ∃ used, rest = used ++ r := by
  obtain ⟨lead, more, hencodes⟩ := Utf8.exists_encodes c
  have hagrees := Bytes.front_bytes hencodes offset rest
  rw [h] at hagrees
  generalize Bytes.front offset lead (more ++ Utf8.bytes rest) = read at hagrees
  cases hagrees with
  | ok _ hused => exact ⟨_, hused⟩

/-- Every token stands at a boundary, and so does the fault of a text that is no tokens. -/
theorem scanFrom_isBoundary (offset : Nat) (s : List Char) :
    match scanFrom offset s with
    | .ok ts => ∀ t ∈ ts, IsBoundary offset s t.offset
    | .error fault => IsBoundary offset s fault.offset := by
  induction offset, s using scanFrom.induct with
  | case1 offset =>
    rw [scanFrom]
    intro t ht
    cases ht
  | case2 offset c rest hspace ih =>
    have hc := Bytes.isAscii_isSpace c hspace
    rw [scanFrom, if_pos hspace]
    cases hscan : scanFrom (offset + 1) rest with
    | ok ts =>
      rw [hscan] at ih
      exact fun t ht => (ih t ht).after_cons hc
    | error fault =>
      rw [hscan] at ih
      exact ih.after_cons hc
  | case3 offset c rest hspace fault hfront =>
    rw [scanFrom_cons hspace, hfront]
    exact front_error hfront
  | case4 offset c rest hspace t r hfront _ taken ih =>
    obtain ⟨used, hused⟩ := front_ok hfront
    have htaken : offset + taken = offset + Utf8.size (c :: used) := by
      simp only [taken, hused, Utf8.size_cons, Utf8.size_append]
      omega
    have hmore : ∀ {n}, IsBoundary (offset + taken) r n → IsBoundary offset (c :: rest) n := by
      intro n h
      rw [htaken] at h
      rw [hused, ← List.cons_append]
      exact h.after
    have hscan : scanFrom offset (c :: rest) =
        (scanFrom (offset + taken) r).map (⟨t, offset⟩ :: ·) := by
      rw [scanFrom_cons hspace, hfront]
      rfl
    rw [hscan]
    cases hrest : scanFrom (offset + taken) r with
    | ok ts =>
      rw [hrest] at ih
      exact List.forall_mem_cons.2 ⟨Utf8.isBoundary_start _ _, fun t ht => hmore (ih t ht)⟩
    | error fault =>
      rw [hrest] at ih
      exact hmore ih

end Token

/-! ## The parser -/

namespace Expr

variable {size : Nat} {ts m : List Lexeme} {P Q : List Lexeme → Prop}

/-- A reading of the front of the tokens points to one of them or to the end of the source,
and leaves some of them. -/
def Within (size : Nat) (ts : List Lexeme)
    (reading : Except SyntaxFault (Expr × { r : List Lexeme // P r })) : Prop :=
  match reading with
  | .ok (_, r) => r.1 ⊆ ts
  | .error fault => fault.offset = size ∨ ∃ t ∈ ts, fault.offset = t.offset

theorem Within.mono {reading : Except SyntaxFault (Expr × { r : List Lexeme // P r })}
    (h : Within size m reading) (hsub : m ⊆ ts) : Within size ts reading := by
  cases reading with
  | ok a => exact List.Subset.trans h hsub
  | error fault => exact h.imp_right fun ⟨t, ht, heq⟩ => ⟨t, hsub ht, heq⟩

theorem Within.bind {reading : Except SyntaxFault (Expr × { r : List Lexeme // P r })}
    {next : Expr × { r : List Lexeme // P r } →
      Except SyntaxFault (Expr × { r : List Lexeme // Q r })}
    (h : Within size ts reading) (hnext : ∀ e r, Within size r.1 (next (e, r))) :
    Within size ts (reading >>= next) := by
  cases reading with
  | ok a => exact (hnext a.1 a.2).mono h
  | error fault => exact h

/-- Operands, each behind the operator, are read by a reader that goes on with its tail. -/
theorem within_tail (operator : Token) (operand : (ts : List Lexeme) → Reading Expr ts)
    (tail : Expr → (ts : List Lexeme) →
      Except SyntaxFault (Expr × { r : List Lexeme // r.length ≤ ts.length }))
    (hcons : ∀ left offset ts, Within size ts (operand ts) →
      (∀ left m, m.length < ts.length → Within size m (tail left m)) →
        Within size ts (tail left (⟨operator, offset⟩ :: ts)))
    (hstop : ∀ left ts, (∀ t ∈ ts.head?, t.token ≠ operator) →
      tail left ts = .ok (left, ⟨ts, Nat.le_refl _⟩))
    (ts : List Lexeme) (hoperand : ∀ m, m.length < ts.length → Within size m (operand m))
    (left : Expr) : Within size ts (tail left ts) := by
  rcases cons_or_stop operator ts with ⟨offset, more, rfl⟩ | hend
  · have hlt : more.length < (⟨operator, offset⟩ :: more : List Lexeme).length :=
      Nat.lt_succ_self _
    refine (hcons left offset more (hoperand more hlt) fun left m hm => ?_).mono
      (List.subset_cons_self _ _)
    exact within_tail operator operand tail hcons hstop m (fun k hk => hoperand k (by omega)) left
  · rw [hstop left ts hend]
    exact List.Subset.refl _
termination_by ts.length

theorem within_primary (hor : ∀ m, m.length < ts.length → Within size m (readOr size m)) :
    Within size ts (readPrimary size ts) := by
  cases ts with
  | nil =>
    rw [readPrimary]
    exact .inl rfl
  | cons t ts =>
    obtain ⟨token, offset⟩ := t
    cases token with
    | leftParen =>
      rw [readPrimary]
      refine ((hor ts (Nat.lt_succ_self _)).mono (List.subset_cons_self _ _)).bind fun e r => ?_
      obtain ⟨r, hr⟩ := r
      cases r with
      | nil => exact .inl rfl
      | cons t r =>
        obtain ⟨token, offset⟩ := t
        cases token with
        | rightParen => exact List.subset_cons_self _ _
        | leftParen | ref | literal | eqEq | notEq | and | or | not =>
          exact .inr ⟨_, List.mem_cons_self, rfl⟩
    | ref r =>
      rw [readPrimary]
      exact List.subset_cons_self _ _
    | literal v =>
      rw [readPrimary]
      exact List.subset_cons_self _ _
    | rightParen | eqEq | notEq | and | or | not =>
      rw [readPrimary]
      · exact .inr ⟨_, List.mem_cons_self, rfl⟩
      all_goals simp

theorem within_unary (hunary : ∀ m, m.length < ts.length → Within size m (readUnary size m))
    (hprimary : Within size ts (readPrimary size ts)) : Within size ts (readUnary size ts) := by
  rcases cons_or_stop .not ts with ⟨offset, more, rfl⟩ | hend
  · rw [readUnary]
    exact ((hunary more (Nat.lt_succ_self _)).mono (List.subset_cons_self _ _)).bind
      fun e r => List.Subset.refl _
  · rw [readUnary]
    · exact hprimary
    · rintro offset more rfl
      exact hend _ rfl rfl

theorem within_comparison (hunary : ∀ m, m.length ≤ ts.length → Within size m (readUnary size m)) :
    Within size ts (readComparison size ts) := by
  rw [readComparison]
  refine (hunary ts (Nat.le_refl _)).bind fun left r => ?_
  obtain ⟨r, hr⟩ := r
  cases r with
  | nil => exact List.Subset.refl _
  | cons t r =>
    have hlt : r.length ≤ ts.length := by
      simp only [List.length_cons] at hr
      omega
    have hright := (hunary r hlt).mono (List.subset_cons_self t r)
    obtain ⟨token, offset⟩ := t
    cases token with
    | eqEq | notEq => exact hright.bind fun e q => List.Subset.refl _
    | leftParen | rightParen | ref | literal | and | or | not => exact List.Subset.refl _

theorem within_andTail (ts : List Lexeme)
    (hcomparison : ∀ m, m.length < ts.length → Within size m (readComparison size m))
    (left : Expr) : Within size ts (readAndTail size left ts) := by
  refine within_tail .and (readComparison size) (readAndTail size) ?_ ?_ ts hcomparison left
  · intro left offset ts hright htail
    rw [readAndTail]
    exact hright.bind fun right r => (htail _ r.1 r.2).bind fun e q => List.Subset.refl _
  · intro left ts hend
    rw [readAndTail]
    rintro offset more rfl
    exact hend _ rfl rfl

theorem within_orTail (ts : List Lexeme)
    (hand : ∀ m, m.length < ts.length → Within size m (readAnd size m)) (left : Expr) :
    Within size ts (readOrTail size left ts) := by
  refine within_tail .or (readAnd size) (readOrTail size) ?_ ?_ ts hand left
  · intro left offset ts hright htail
    rw [readOrTail]
    exact hright.bind fun right r => (htail _ r.1 r.2).bind fun e q => List.Subset.refl _
  · intro left ts hend
    rw [readOrTail]
    rintro offset more rfl
    exact hend _ rfl rfl

theorem within_and
    (hcomparison : ∀ m, m.length ≤ ts.length → Within size m (readComparison size m)) :
    Within size ts (readAnd size ts) := by
  rw [readAnd]
  refine (hcomparison ts (Nat.le_refl _)).bind fun left r => ?_
  have hr : r.1.length < ts.length := r.2
  exact (within_andTail r.1 (fun m hm => hcomparison m (by omega)) left).bind
    fun e q => List.Subset.refl _

theorem within_or (hand : ∀ m, m.length ≤ ts.length → Within size m (readAnd size m)) :
    Within size ts (readOr size ts) := by
  rw [readOr]
  refine (hand ts (Nat.le_refl _)).bind fun left r => ?_
  have hr : r.1.length < ts.length := r.2
  exact (within_orTail r.1 (fun m hm => hand m (by omega)) left).bind
    fun e q => List.Subset.refl _

/-- Every reader of the grammar points into the tokens that it was given. -/
theorem within_read (size : Nat) (c : Production) (ts : List Lexeme) :
    Within size ts (c.read size ts) := by
  match c with
  | .primary => exact within_primary fun m _ => within_read size .or m
  | .unary =>
    exact within_unary (fun m _ => within_read size .unary m) (within_read size .primary ts)
  | .comparison => exact within_comparison fun m _ => within_read size .unary m
  | .and => exact within_and fun m _ => within_read size .comparison m
  | .or => exact within_or fun m _ => within_read size .and m
termination_by 5 * ts.length + c.rank
decreasing_by
  all_goals simp only [Production.rank]; omega

/-- A fault of the parser is at the start, at the end or at a token. -/
theorem ofTokens_error {fault : SyntaxFault} (h : ofTokens size ts = .error fault) :
    fault.offset = 0 ∨ fault.offset = size ∨ ∃ t ∈ ts, fault.offset = t.offset := by
  rw [ofTokens] at h
  split at h
  · cases h
    exact .inl rfl
  · refine .inr ?_
    have hread : Within size ts (readOr size ts) := within_read size .or ts
    rcases Fallible.bind_eq_error_iff.1 h with h | ⟨⟨e, r, hr⟩, hok, h⟩
    · rw [h] at hread
      exact hread
    · rw [hok] at hread
      cases r with
      | nil => cases h
      | cons t more =>
        cases h
        exact .inr ⟨t, hread List.mem_cons_self, rfl⟩

/-- Wherever the reading of a source stops, that is between two of its characters. -/
theorem readSource_error {source : List Char} {fault : SyntaxFault}
    (h : readSource source = .error fault) : IsBoundary 0 source fault.offset := by
  have hscan := Token.scanFrom_isBoundary 0 source
  rw [readSource] at h
  rcases Fallible.bind_eq_error_iff.1 h with h | ⟨ts, hok, h⟩
  · rw [Token.scan] at h
    rw [h] at hscan
    exact hscan
  · rw [Token.scan] at hok
    rw [hok] at hscan
    rcases ofTokens_error h with hstart | hend | ⟨t, ht, htoken⟩
    · rw [hstart]
      exact Utf8.isBoundary_start 0 source
    · have hsource := Utf8.isBoundary_of_append 0 source []
      rwa [List.append_nil, Nat.zero_add, ← hend] at hsource
    · rw [htoken]
      exact hscan t ht

/-- A condition is read byte by byte.  No text is ever cut off inside a character, and the bytes
of every string are text: what the bytes are read as is the expression or the syntax error.
The error has the source, and its position is between two characters of the source. -/
theorem parseCondition_bytes (source : String) :
    match parseCondition source with
    | .ok e => Bytes.parse source = .ok e
    | .error error => ∃ fault, error = .malformed source fault ∧
        Bytes.parse source = .error (.fault fault) ∧ fault.offset ≤ source.utf8ByteSize ∧
        (String.Pos.Raw.mk fault.offset).IsValid source := by
  rw [parseCondition, Bytes.parse_eq]
  cases hread : readSource source.toList with
  | ok e => rfl
  | error fault =>
    obtain ⟨hle, hvalid⟩ := (readSource_error hread).isValid
    exact ⟨fault, rfl, rfl, hle, hvalid⟩

end Expr

end PipelineEngine
