import PipelineEngine.Expression.Parser
import PipelineEngine.Proofs.Fallible

/-!
# The grammar of expressions

The grammar is a relation between token lists and trees, `Derives`, with a constructor for
every alternative of a production.  Repetitions are lists of operands, and their tree joins
them from left to right.  The readers of the parser are compared with it:

* `derives_of_reads`: what a reader takes from the front of the tokens derives its tree, by
  recursion on the measure that the readers descend on.
* `reads_of_derives`: a reader takes what derives a tree, by induction on the derivation, as
  long as no operator follows that would go on with it.
* `ofTokens_iff_derives`: the parser accepts exactly what the grammar derives.
-/

namespace PipelineEngine

namespace Expr

/-- The productions of the grammar, from the weakest binding to the strongest. -/
inductive Production where
  | or
  | and
  | comparison
  | unary
  | primary
deriving Repr, DecidableEq

/-- The tokens of the operands that follow the first one, each behind the operator. -/
def operandTokens (operator : Token) (operands : List (List Token × Expr)) : List Token :=
  operands.flatMap fun operand => operator :: operand.1

/-- The tree of some operands, joined from left to right. -/
def joinLeft (join : Expr → Expr → Expr) (first : Expr) (operands : List (List Token × Expr)) :
    Expr :=
  operands.foldl (fun left operand => join left operand.2) first

/-- The tokens are derivable from a production, and the derivation has the tree. -/
inductive Derives : Production → List Token → Expr → Prop
  /-- `or := and ("||" and)*` -/
  | or {first : List Token} {e : Expr} {operands : List (List Token × Expr)}
      (hfirst : Derives .and first e)
      (hoperands : ∀ operand ∈ operands, Derives .and operand.1 operand.2) :
    Derives .or (first ++ operandTokens .or operands) (joinLeft .or e operands)
  /-- `and := eq ("&&" eq)*` -/
  | and {first : List Token} {e : Expr} {operands : List (List Token × Expr)}
      (hfirst : Derives .comparison first e)
      (hoperands : ∀ operand ∈ operands, Derives .comparison operand.1 operand.2) :
    Derives .and (first ++ operandTokens .and operands) (joinLeft .and e operands)
  /-- `eq := unary (("==" | "!=") unary)?` -/
  | comparison {ts : List Token} {e : Expr} (h : Derives .unary ts e) : Derives .comparison ts e
  | eq {ls rs : List Token} {left right : Expr} (hleft : Derives .unary ls left)
      (hright : Derives .unary rs right) :
    Derives .comparison (ls ++ .eqEq :: rs) (.eq left right)
  | ne {ls rs : List Token} {left right : Expr} (hleft : Derives .unary ls left)
      (hright : Derives .unary rs right) :
    Derives .comparison (ls ++ .notEq :: rs) (.ne left right)
  /-- `unary := "!" unary | primary` -/
  | not {ts : List Token} {e : Expr} (h : Derives .unary ts e) :
    Derives .unary (.not :: ts) (.not e)
  | primary {ts : List Token} {e : Expr} (h : Derives .primary ts e) : Derives .unary ts e
  /-- `primary := "(" expr ")" | literal | reference` -/
  | parenthesised {ts : List Token} {e : Expr} (h : Derives .or ts e) :
    Derives .primary (.leftParen :: (ts ++ [.rightParen])) e
  | literal (v : Value) : Derives .primary [.literal v] (.literal v)
  | ref (r : Reference) : Derives .primary [.ref r] (.ref r)

/-! ## What readers answer -/

/-- The reader takes the expression from the front of the tokens and leaves the rest. -/
def Reads {P : List Lexeme → Prop}
    (reading : Except SyntaxFault (Expr × { r : List Lexeme // P r }))
    (e : Expr) (rest : List Lexeme) : Prop :=
  ∃ h, reading = .ok (e, ⟨rest, h⟩)

theorem reads_ok_iff {P : List Lexeme → Prop} {e e' : Expr} {r : { r : List Lexeme // P r }}
    {rest : List Lexeme} : Reads (.ok (e', r)) e rest ↔ e = e' ∧ rest = r.1 := by
  obtain ⟨r, hr⟩ := r
  constructor
  · rintro ⟨h, heq⟩
    cases heq
    exact ⟨rfl, rfl⟩
  · rintro ⟨rfl, rfl⟩
    exact ⟨hr, rfl⟩

theorem not_reads_error {P : List Lexeme → Prop} {fault : SyntaxFault} {e : Expr}
    {rest : List Lexeme} :
    ¬ Reads (.error fault : Except SyntaxFault (Expr × { r : List Lexeme // P r })) e rest :=
  fun ⟨_, h⟩ => nomatch h

/-- A reading goes on with what another one left. -/
theorem reads_bind_iff {P Q : List Lexeme → Prop}
    {reading : Except SyntaxFault (Expr × { r : List Lexeme // P r })}
    {next : Expr × { r : List Lexeme // P r } →
      Except SyntaxFault (Expr × { r : List Lexeme // Q r })}
    {e : Expr} {rest : List Lexeme} {N : Expr → List Lexeme → Prop}
    (h : ∀ left m hm, Reads (next (left, ⟨m, hm⟩)) e rest ↔ N left m) :
    Reads (reading >>= next) e rest ↔ ∃ left m, Reads reading left m ∧ N left m := by
  constructor
  · rintro ⟨hrest, heq⟩
    obtain ⟨⟨left, m, hm⟩, hleft, hnext⟩ := Fallible.bind_eq_ok_iff.1 heq
    exact ⟨left, m, ⟨hm, hleft⟩, (h left m hm).1 ⟨hrest, hnext⟩⟩
  · rintro ⟨left, m, ⟨hm, hleft⟩, hnext⟩
    obtain ⟨hrest, heq⟩ := (h left m hm).2 hnext
    exact ⟨hrest, Fallible.bind_eq_ok_iff.2 ⟨_, hleft, heq⟩⟩

/-- A reading whose expression is wrapped in the end. -/
theorem reads_map_iff {P Q : List Lexeme → Prop} (f : Expr → Expr) {hPQ : ∀ r, P r → Q r}
    {reading : Except SyntaxFault (Expr × { r : List Lexeme // P r })} {e : Expr}
    {rest : List Lexeme} :
    Reads (reading >>= fun a =>
        (pure (f a.1, ⟨a.2.1, hPQ a.2.1 a.2.2⟩) :
          Except SyntaxFault (Expr × { r : List Lexeme // Q r }))) e rest ↔
      ∃ inner, Reads reading inner rest ∧ e = f inner := by
  have hdone : ∀ inner m (hm : P m), Reads (.ok (f inner, (⟨m, hPQ m hm⟩ : { r // Q r }))) e rest ↔
      e = f inner ∧ rest = m := fun _ _ _ => reads_ok_iff
  refine (reads_bind_iff hdone).trans ?_
  constructor
  · rintro ⟨inner, _, hinner, rfl, rfl⟩
    exact ⟨inner, hinner, rfl⟩
  · rintro ⟨inner, hinner, rfl⟩
    exact ⟨inner, rest, hinner, rfl, rfl⟩

/-- A reading that is answered as it is. -/
theorem reads_pure_iff {P Q : List Lexeme → Prop} {hPQ : ∀ r, P r → Q r}
    {reading : Except SyntaxFault (Expr × { r : List Lexeme // P r })} {e : Expr}
    {rest : List Lexeme} :
    Reads (reading >>= fun a =>
        (pure (a.1, ⟨a.2.1, hPQ a.2.1 a.2.2⟩) :
          Except SyntaxFault (Expr × { r : List Lexeme // Q r }))) e rest ↔
      Reads reading e rest :=
  (reads_map_iff id).trans (by simp)

/-! ## Every reader in terms of the next ones -/

variable {size : Nat} {ts rest : List Lexeme} {left e : Expr}

theorem reads_readOr_iff :
    Reads (readOr size ts) e rest ↔
      ∃ left m, Reads (readAnd size ts) left m ∧ Reads (readOrTail size left m) e rest := by
  rw [readOr]
  exact reads_bind_iff fun left m hm => reads_pure_iff

theorem reads_readOrTail_iff {offset : Nat} :
    Reads (readOrTail size left (⟨.or, offset⟩ :: ts)) e rest ↔
      ∃ right m, Reads (readAnd size ts) right m ∧
        Reads (readOrTail size (.or left right) m) e rest := by
  rw [readOrTail]
  exact reads_bind_iff fun right m hm => reads_pure_iff

theorem reads_readOrTail_of_stop (h : ∀ t ∈ ts.head?, t.token ≠ .or) :
    Reads (readOrTail size left ts) e rest ↔ e = left ∧ rest = ts := by
  rw [readOrTail]
  · exact reads_ok_iff
  · rintro offset rest rfl
    exact h _ rfl rfl

theorem reads_readAnd_iff :
    Reads (readAnd size ts) e rest ↔
      ∃ left m, Reads (readComparison size ts) left m ∧
        Reads (readAndTail size left m) e rest := by
  rw [readAnd]
  exact reads_bind_iff fun left m hm => reads_pure_iff

theorem reads_readAndTail_iff {offset : Nat} :
    Reads (readAndTail size left (⟨.and, offset⟩ :: ts)) e rest ↔
      ∃ right m, Reads (readComparison size ts) right m ∧
        Reads (readAndTail size (.and left right) m) e rest := by
  rw [readAndTail]
  exact reads_bind_iff fun right m hm => reads_pure_iff

theorem reads_readAndTail_of_stop (h : ∀ t ∈ ts.head?, t.token ≠ .and) :
    Reads (readAndTail size left ts) e rest ↔ e = left ∧ rest = ts := by
  rw [readAndTail]
  · exact reads_ok_iff
  · rintro offset rest rfl
    exact h _ rfl rfl

/-- A comparison is an operand, alone or with an operator and another operand behind it. -/
theorem reads_readComparison_iff :
    Reads (readComparison size ts) e rest ↔
      ∃ left m, Reads (readUnary size ts) left m ∧
        match m with
        | ⟨.eqEq, _⟩ :: m => ∃ right, Reads (readUnary size m) right rest ∧ e = .eq left right
        | ⟨.notEq, _⟩ :: m => ∃ right, Reads (readUnary size m) right rest ∧ e = .ne left right
        | m => e = left ∧ rest = m := by
  rw [readComparison]
  refine reads_bind_iff fun left m hm => ?_
  cases m with
  | nil => exact reads_ok_iff
  | cons t m =>
    obtain ⟨token, offset⟩ := t
    cases token with
    | eqEq => exact reads_map_iff (.eq left)
    | notEq => exact reads_map_iff (.ne left)
    | leftParen | rightParen | ref | literal | and | or | not => exact reads_ok_iff

theorem reads_readUnary_not_iff {offset : Nat} :
    Reads (readUnary size (⟨.not, offset⟩ :: ts)) e rest ↔
      ∃ inner, Reads (readUnary size ts) inner rest ∧ e = .not inner := by
  rw [readUnary]
  exact reads_map_iff .not

theorem reads_readUnary_of_stop (h : ∀ t ∈ ts.head?, t.token ≠ .not) :
    Reads (readUnary size ts) e rest ↔ Reads (readPrimary size ts) e rest := by
  rw [readUnary]
  rintro offset rest rfl
  exact h _ rfl rfl

/-- A primary expression is an expression in parentheses, a literal or a reference. -/
theorem reads_readPrimary_iff :
    Reads (readPrimary size ts) e rest ↔
      match ts with
      | ⟨.leftParen, _⟩ :: ts =>
        ∃ offset, Reads (readOr size ts) e (⟨.rightParen, offset⟩ :: rest)
      | ⟨.ref r, _⟩ :: ts => e = .ref r ∧ rest = ts
      | ⟨.literal v, _⟩ :: ts => e = .literal v ∧ rest = ts
      | _ => False := by
  cases ts with
  | nil =>
    rw [readPrimary]
    exact iff_of_false not_reads_error id
  | cons t ts =>
    obtain ⟨token, offset⟩ := t
    cases token with
    | leftParen =>
      rw [readPrimary, reads_bind_iff (N := fun inner m =>
        e = inner ∧ ∃ offset, m = ⟨.rightParen, offset⟩ :: rest)]
      · constructor
        · rintro ⟨inner, _, h, rfl, offset, rfl⟩
          exact ⟨offset, h⟩
        · rintro ⟨offset, h⟩
          exact ⟨e, _, h, rfl, offset, rfl⟩
      · intro inner m hm
        cases m with
        | nil => exact iff_of_false not_reads_error (by simp)
        | cons t m =>
          obtain ⟨token, offset⟩ := t
          cases token with
          | rightParen => exact reads_ok_iff.trans (by simp [eq_comm])
          | leftParen | ref | literal | eqEq | notEq | and | or | not =>
            exact iff_of_false not_reads_error (by simp)
    | ref r => rw [readPrimary]; exact reads_ok_iff
    | literal v => rw [readPrimary]; exact reads_ok_iff
    | rightParen | eqEq | notEq | and | or | not =>
      rw [readPrimary] <;> simp [not_reads_error]

/-- Tokens start with an operator or not. -/
theorem cons_or_stop (operator : Token) (ts : List Lexeme) :
    (∃ offset more, ts = ⟨operator, offset⟩ :: more) ∨ ∀ t ∈ ts.head?, t.token ≠ operator := by
  cases ts with
  | nil => exact .inr (by simp)
  | cons t more =>
    by_cases h : t.token = operator
    · exact .inl ⟨t.offset, more, by rw [← h]⟩
    · exact .inr (by simpa using h)

/-! ## What is read is derivable -/

/-- The reader of a production. -/
def Production.read (size : Nat) : Production → (ts : List Lexeme) → Reading Expr ts
  | .or => readOr size
  | .and => readAnd size
  | .comparison => readComparison size
  | .unary => readUnary size
  | .primary => readPrimary size

/-- What the reader of a production takes from the front of the tokens derives its
expression. -/
def Production.Sound (size : Nat) (c : Production) (ts : List Lexeme) : Prop :=
  ∀ e rest, Reads (c.read size ts) e rest →
    ∃ front, ts = front ++ rest ∧ Derives c (front.map (·.token)) e

theorem sound_primary (hor : ∀ rest, rest.length < ts.length → Production.Sound size .or rest) :
    Production.Sound size .primary ts := by
  intro e rest hreads
  have h := reads_readPrimary_iff.1 hreads
  split at h
  · rename_i opened ts
    obtain ⟨closed, h⟩ := h
    obtain ⟨front, rfl, hfront⟩ := hor _ (by simp) _ _ h
    refine ⟨⟨.leftParen, opened⟩ :: (front ++ [⟨.rightParen, closed⟩]), by simp, ?_⟩
    simpa using Derives.parenthesised hfront
  · obtain ⟨rfl, rfl⟩ := h
    exact ⟨[_], rfl, .ref _⟩
  · obtain ⟨rfl, rfl⟩ := h
    exact ⟨[_], rfl, .literal _⟩
  · exact h.elim

theorem sound_unary (hunary : ∀ rest, rest.length < ts.length → Production.Sound size .unary rest)
    (hprimary : Production.Sound size .primary ts) : Production.Sound size .unary ts := by
  intro e rest h
  rcases cons_or_stop .not ts with ⟨offset, ts, rfl⟩ | hstop
  · obtain ⟨inner, hinner, rfl⟩ := reads_readUnary_not_iff.1 h
    obtain ⟨front, rfl, hfront⟩ := hunary _ (by simp) _ _ hinner
    exact ⟨⟨.not, offset⟩ :: front, rfl, .not hfront⟩
  · obtain ⟨front, hts, hfront⟩ := hprimary _ _ ((reads_readUnary_of_stop hstop).1 h)
    exact ⟨front, hts, .primary hfront⟩

theorem sound_comparison
    (hunary : ∀ rest, rest.length ≤ ts.length → Production.Sound size .unary rest) :
    Production.Sound size .comparison ts := by
  intro e rest hreads
  obtain ⟨left, m, hleft, h⟩ := reads_readComparison_iff.1 hreads
  obtain ⟨front, rfl, hfront⟩ := hunary _ (Nat.le_refl _) _ _ hleft
  split at h
  · rename_i offset m
    obtain ⟨right, hright, rfl⟩ := h
    obtain ⟨back, rfl, hback⟩ := hunary _ (by simp; omega) _ _ hright
    refine ⟨front ++ ⟨.eqEq, offset⟩ :: back, by simp, ?_⟩
    simpa using Derives.eq hfront hback
  · rename_i offset m
    obtain ⟨right, hright, rfl⟩ := h
    obtain ⟨back, rfl, hback⟩ := hunary _ (by simp; omega) _ _ hright
    refine ⟨front ++ ⟨.notEq, offset⟩ :: back, by simp, ?_⟩
    simpa using Derives.ne hfront hback
  · obtain ⟨rfl, rfl⟩ := h
    exact ⟨front, rfl, .comparison hfront⟩

section

/-! Both chains of operands are read alike: `operand` reads one, and `tail` what follows the
ones that `left` was made of. -/

variable {c : Production} {operator : Token} {join : Expr → Expr → Expr}
variable {tail : Expr → (ts : List Lexeme) →
  Except SyntaxFault (Expr × { r : List Lexeme // r.length ≤ ts.length })}
variable (htail : ∀ left offset ts e rest,
  Reads (tail left (⟨operator, offset⟩ :: ts)) e rest ↔
    ∃ right m, Reads (c.read size ts) right m ∧ Reads (tail (join left right) m) e rest)
variable (hstop : ∀ left ts e rest, (∀ t ∈ ts.head?, t.token ≠ operator) →
  (Reads (tail left ts) e rest ↔ e = left ∧ rest = ts))
include htail hstop

/-- The tail of a chain consists of operands, each behind the operator. -/
theorem sound_tail (hoperand : ∀ rest, rest.length < ts.length → c.Sound size rest)
    (h : Reads (tail left ts) e rest) :
    ∃ front operands, ts = front ++ rest ∧ front.map (·.token) = operandTokens operator operands ∧
      e = joinLeft join left operands ∧ ∀ operand ∈ operands, Derives c operand.1 operand.2 := by
  induction hn : ts.length using Nat.strongRecOn generalizing left ts with
  | ind n ih =>
  subst hn
  rcases cons_or_stop operator ts with ⟨offset, ts, rfl⟩ | hts
  · obtain ⟨right, m, hright, hmore⟩ := (htail _ _ _ _ _).1 h
    obtain ⟨front, rfl, hfront⟩ := hoperand _ (by simp) _ _ hright
    have hshort : m.length < (⟨operator, offset⟩ :: (front ++ m) : List Lexeme).length := by
      rw [List.length_cons, List.length_append]
      omega
    obtain ⟨back, operands, rfl, hback, rfl, hoperands⟩ :=
      ih m.length hshort (fun rest hrest => hoperand rest (Nat.lt_trans hrest hshort)) hmore rfl
    refine ⟨⟨operator, offset⟩ :: (front ++ back), (front.map (·.token), right) :: operands,
      by simp, by simp [operandTokens, hback], rfl, ?_⟩
    exact List.forall_mem_cons.2 ⟨hfront, hoperands⟩
  · obtain ⟨rfl, rfl⟩ := (hstop _ _ _ _ hts).1 h
    exact ⟨[], [], rfl, rfl, rfl, by simp⟩

/-- A first operand and a tail make a chain. -/
theorem sound_chain (hoperand : ∀ rest, rest.length ≤ ts.length → c.Sound size rest)
    (h : ∃ left m, Reads (c.read size ts) left m ∧ Reads (tail left m) e rest) :
    ∃ front first e' operands, ts = front ++ rest ∧
      front.map (·.token) = first ++ operandTokens operator operands ∧
      e = joinLeft join e' operands ∧ Derives c first e' ∧
      ∀ operand ∈ operands, Derives c operand.1 operand.2 := by
  obtain ⟨left, m, hleft, h⟩ := h
  have hm : m.length < ts.length := hleft.1
  obtain ⟨front, rfl, hfront⟩ := hoperand _ (Nat.le_refl _) _ _ hleft
  obtain ⟨back, operands, rfl, hback, rfl, hoperands⟩ :=
    sound_tail htail hstop (fun rest hrest => hoperand rest (by omega)) h
  exact ⟨front ++ back, _, left, operands, by simp, by simp [hback], rfl, hfront, hoperands⟩

end

theorem sound_or (hand : ∀ rest, rest.length ≤ ts.length → Production.Sound size .and rest) :
    Production.Sound size .or ts := by
  intro e rest h
  obtain ⟨front, first, e', operands, hts, hfront, rfl, hfirst, hoperands⟩ :=
    sound_chain (fun _ _ _ _ _ => reads_readOrTail_iff)
      (fun _ _ _ _ => reads_readOrTail_of_stop) hand (reads_readOr_iff.1 h)
  exact ⟨front, hts, hfront ▸ .or hfirst hoperands⟩

theorem sound_and
    (hcomparison : ∀ rest, rest.length ≤ ts.length → Production.Sound size .comparison rest) :
    Production.Sound size .and ts := by
  intro e rest h
  obtain ⟨front, first, e', operands, hts, hfront, rfl, hfirst, hoperands⟩ :=
    sound_chain (fun _ _ _ _ _ => reads_readAndTail_iff)
      (fun _ _ _ _ => reads_readAndTail_of_stop) hcomparison (reads_readAnd_iff.1 h)
  exact ⟨front, hts, hfront ▸ .and hfirst hoperands⟩

/-- The place of a production in the order in which its reader hands on the tokens. -/
def Production.rank : Production → Nat
  | .primary => 0
  | .unary => 1
  | .comparison => 2
  | .and => 3
  | .or => 4

theorem derives_of_reads (c : Production) (ts : List Lexeme) : c.Sound size ts := by
  match c with
  | .primary => exact sound_primary fun rest _ => derives_of_reads .or rest
  | .unary =>
    exact sound_unary (fun rest _ => derives_of_reads .unary rest) (derives_of_reads .primary ts)
  | .comparison => exact sound_comparison fun rest _ => derives_of_reads .unary rest
  | .and => exact sound_and fun rest _ => derives_of_reads .comparison rest
  | .or => exact sound_or fun rest _ => derives_of_reads .and rest
termination_by 5 * ts.length + c.rank
decreasing_by
  all_goals simp only [Production.rank]; omega

/-! ## What is derivable is read -/

/-- The operators with which the reader of a production would go on. -/
def Production.operators : Production → List Token
  | .or => [.or, .and, .eqEq, .notEq]
  | .and => [.and, .eqEq, .notEq]
  | .comparison => [.eqEq, .notEq]
  | .unary | .primary => []

/-- Before these tokens the reader of a production stops. -/
def Production.Stops (c : Production) (rest : List Lexeme) : Prop :=
  ∀ t ∈ rest.head?, t.token ∉ c.operators

/-- The reader of a production takes the tokens and has the expression, where it stops behind
them. -/
def Production.Complete (size : Nat) (c : Production) (ts : List Token) (e : Expr) : Prop :=
  ∀ (taken rest : List Lexeme), taken.map (·.token) = ts → c.Stops rest →
    Reads (c.read size (taken ++ rest)) e rest

theorem Production.Stops.mono {c c' : Production} (h : c.Stops rest)
    (hsub : c'.operators ⊆ c.operators) : c'.Stops rest :=
  fun t ht hmem => h t ht (hsub hmem)

theorem Production.Stops.ne {c : Production} (h : c.Stops rest) {operator : Token}
    (hoperator : operator ∈ c.operators) : ∀ t ∈ rest.head?, t.token ≠ operator := by
  intro t ht heq
  exact h t ht (heq ▸ hoperator)

theorem stops_cons {c : Production} {t : Lexeme} (h : t.token ∉ c.operators)
    (rest : List Lexeme) : c.Stops (t :: rest) := by
  intro t' ht'
  obtain rfl : t = t' := by simpa using ht'
  exact h

section

variable {c : Production} {operator : Token} {join : Expr → Expr → Expr}
variable {tail : Expr → (ts : List Lexeme) →
  Except SyntaxFault (Expr × { r : List Lexeme // r.length ≤ ts.length })}
variable (htail : ∀ left offset ts e rest,
  Reads (tail left (⟨operator, offset⟩ :: ts)) e rest ↔
    ∃ right m, Reads (c.read size ts) right m ∧ Reads (tail (join left right) m) e rest)
variable (hstop : ∀ left ts e rest, (∀ t ∈ ts.head?, t.token ≠ operator) →
  (Reads (tail left ts) e rest ↔ e = left ∧ rest = ts))
variable (hoperator : operator ∉ c.operators)
include hoperator

/-- An operand ends where the operator of the chain follows it, or what follows the chain. -/
theorem stops_operands {operands : List (List Token × Expr)} {taken : List Lexeme}
    (htaken : taken.map (·.token) = operandTokens operator operands) (hrest : c.Stops rest) :
    c.Stops (taken ++ rest) := by
  cases taken with
  | nil => exact hrest
  | cons t more =>
    apply stops_cons
    cases operands with
    | nil => simp [operandTokens] at htaken
    | cons operand operands =>
      obtain ⟨rfl, -⟩ : t.token = operator ∧ _ := by simpa [operandTokens] using htaken
      exact hoperator

include htail hstop

theorem complete_tail {operands : List (List Token × Expr)}
    (hoperands : ∀ operand ∈ operands, c.Complete size operand.1 operand.2)
    {taken : List Lexeme} (htaken : taken.map (·.token) = operandTokens operator operands)
    (hrest : c.Stops rest) (hend : ∀ t ∈ rest.head?, t.token ≠ operator) :
    Reads (tail left (taken ++ rest)) (joinLeft join left operands) rest := by
  induction operands generalizing left taken with
  | nil =>
    obtain rfl : taken = [] := by simpa [operandTokens] using htaken
    exact (hstop _ _ _ _ hend).2 ⟨rfl, rfl⟩
  | cons operand operands ih =>
    obtain ⟨hoperand, hoperands⟩ := List.forall_mem_cons.1 hoperands
    obtain ⟨⟨_, offset⟩, taken, rfl, rfl, htaken⟩ :
        ∃ t more, taken = t :: more ∧ t.token = operator ∧
          more.map (·.token) = operand.1 ++ operandTokens operator operands := by
      simpa [operandTokens, List.map_eq_cons_iff] using htaken
    obtain ⟨front, back, rfl, hfront, hback⟩ := List.map_eq_append_iff.1 htaken
    have hright := hoperand front (back ++ rest) hfront (stops_operands hoperator hback hrest)
    rw [List.cons_append, List.append_assoc]
    exact (htail _ _ _ _ _).2 ⟨_, _, hright, ih hoperands hback⟩

/-- A first operand and the others, each behind the operator. -/
theorem complete_chain {first : List Token} {operands : List (List Token × Expr)}
    (hfirst : c.Complete size first e)
    (hoperands : ∀ operand ∈ operands, c.Complete size operand.1 operand.2)
    {taken : List Lexeme} (htaken : taken.map (·.token) = first ++ operandTokens operator operands)
    (hrest : c.Stops rest) (hend : ∀ t ∈ rest.head?, t.token ≠ operator) :
    ∃ left m, Reads (c.read size (taken ++ rest)) left m ∧
      Reads (tail left m) (joinLeft join e operands) rest := by
  obtain ⟨front, back, rfl, hfront, hback⟩ := List.map_eq_append_iff.1 htaken
  rw [List.append_assoc]
  exact ⟨_, _, hfirst front (back ++ rest) hfront (stops_operands hoperator hback hrest),
    complete_tail htail hstop hoperator hoperands hback hrest hend⟩

end

/-- Operands of comparisons and of `!` end by themselves. -/
theorem stops_unary : Production.unary.Stops rest := fun _ _ => List.not_mem_nil

/-- A primary expression does not start with an operator. -/
theorem Derives.stop_of_primary {taken : List Lexeme}
    (h : Derives .primary (taken.map (·.token)) e) :
    ∀ t ∈ (taken ++ rest).head?, t.token ≠ .not := by
  cases taken with
  | nil => cases h
  | cons t more =>
    intro t' ht'
    obtain rfl : t = t' := by simpa using ht'
    intro heq
    rw [List.map_cons, heq] at h
    cases h

theorem eq_singleton_of_map {taken : List Lexeme} {t : Token} (h : taken.map (·.token) = [t]) :
    ∃ offset, taken = [⟨t, offset⟩] := by
  obtain ⟨⟨_, offset⟩, more, rfl, rfl, hmore⟩ := List.map_eq_cons_iff.1 h
  exact ⟨offset, by rw [List.map_eq_nil_iff.1 hmore]⟩

/-- An operator between tokens stands between the lexemes that they come from. -/
theorem exists_of_map_append_cons {taken : List Lexeme} {ls rs : List Token} {operator : Token}
    (h : taken.map (·.token) = ls ++ operator :: rs) :
    ∃ front offset back, taken = front ++ ⟨operator, offset⟩ :: back ∧
      front.map (·.token) = ls ∧ back.map (·.token) = rs := by
  obtain ⟨front, more, rfl, hfront, hmore⟩ := List.map_eq_append_iff.1 h
  obtain ⟨⟨_, offset⟩, back, rfl, rfl, hback⟩ := List.map_eq_cons_iff.1 hmore
  exact ⟨front, offset, back, rfl, hfront, hback⟩

theorem reads_of_derives (size : Nat) {c : Production} {ts : List Token} {e : Expr}
    (h : Derives c ts e) : c.Complete size ts e := by
  induction h with
  | or _ _ ihfirst ihoperands =>
    intro taken rest htaken hrest
    exact reads_readOr_iff.2 (complete_chain (fun _ _ _ _ _ => reads_readOrTail_iff)
      (fun _ _ _ _ => reads_readOrTail_of_stop) (by simp [Production.operators]) ihfirst
      ihoperands htaken (hrest.mono (by simp [Production.operators]))
      (hrest.ne (by simp [Production.operators])))
  | and _ _ ihfirst ihoperands =>
    intro taken rest htaken hrest
    exact reads_readAnd_iff.2 (complete_chain (fun _ _ _ _ _ => reads_readAndTail_iff)
      (fun _ _ _ _ => reads_readAndTail_of_stop) (by simp [Production.operators]) ihfirst
      ihoperands htaken (hrest.mono (by simp [Production.operators]))
      (hrest.ne (by simp [Production.operators])))
  | @comparison ts e _ ih =>
    intro taken rest htaken hrest
    refine reads_readComparison_iff.2 ⟨e, rest, ih taken rest htaken stops_unary, ?_⟩
    split
    · exact absurd rfl (hrest.ne (by simp [Production.operators]) _ rfl)
    · exact absurd rfl (hrest.ne (by simp [Production.operators]) _ rfl)
    · exact ⟨rfl, rfl⟩
  | @eq ls rs left right _ _ ihleft ihright =>
    intro taken rest htaken hrest
    obtain ⟨front, offset, back, rfl, hfront, hback⟩ := exists_of_map_append_cons htaken
    rw [List.append_assoc]
    exact reads_readComparison_iff.2 ⟨left, _, ihleft front _ hfront stops_unary, right,
      ihright back rest hback stops_unary, rfl⟩
  | @ne ls rs left right _ _ ihleft ihright =>
    intro taken rest htaken hrest
    obtain ⟨front, offset, back, rfl, hfront, hback⟩ := exists_of_map_append_cons htaken
    rw [List.append_assoc]
    exact reads_readComparison_iff.2 ⟨left, _, ihleft front _ hfront stops_unary, right,
      ihright back rest hback stops_unary, rfl⟩
  | @not ts e _ ih =>
    intro taken rest htaken hrest
    obtain ⟨⟨_, offset⟩, more, rfl, rfl, hmore⟩ := List.map_eq_cons_iff.1 htaken
    exact reads_readUnary_not_iff.2 ⟨e, ih more rest hmore stops_unary, rfl⟩
  | primary h ih =>
    intro taken rest htaken hrest
    subst htaken
    exact (reads_readUnary_of_stop h.stop_of_primary).2 (ih taken rest rfl stops_unary)
  | @parenthesised ts e _ ih =>
    intro taken rest htaken hrest
    obtain ⟨⟨_, opened⟩, more, rfl, rfl, hmore⟩ := List.map_eq_cons_iff.1 htaken
    obtain ⟨inner, last, rfl, hinner, hlast⟩ := List.map_eq_append_iff.1 hmore
    obtain ⟨closed, rfl⟩ := eq_singleton_of_map hlast
    rw [List.cons_append, List.append_assoc]
    exact reads_readPrimary_iff.2
      ⟨closed, ih inner _ hinner (stops_cons (by simp [Production.operators]) rest)⟩
  | literal v =>
    intro taken rest htaken hrest
    obtain ⟨offset, rfl⟩ := eq_singleton_of_map htaken
    exact reads_readPrimary_iff.2 ⟨rfl, rfl⟩
  | ref r =>
    intro taken rest htaken hrest
    obtain ⟨offset, rfl⟩ := eq_singleton_of_map htaken
    exact reads_readPrimary_iff.2 ⟨rfl, rfl⟩

/-! ## The parser -/

theorem not_derives_nil {c : Production} : ¬ Derives c [] e := by
  suffices h : ∀ ts, Derives c ts e → ts ≠ [] from fun hnil => h [] hnil rfl
  intro ts h
  induction h with
  | or _ _ ih _ | and _ _ ih _ | comparison _ ih | primary _ ih => simp [ih]
  | eq | ne | not | parenthesised | literal | ref => simp

theorem reads_all_iff (size : Nat) :
    Reads (readOr size ts) e [] ↔ Derives .or (ts.map (·.token)) e := by
  constructor
  · intro h
    obtain ⟨front, hts, hfront⟩ := derives_of_reads .or ts e [] h
    rwa [hts, List.append_nil]
  · intro h
    have hall := reads_of_derives size h ts [] rfl nofun
    rwa [List.append_nil] at hall

theorem ofTokens_eq_ok_iff : ofTokens size ts = .ok e ↔ Derives .or (ts.map (·.token)) e := by
  cases ts with
  | nil => exact iff_of_false nofun not_derives_nil
  | cons t ts =>
    rw [← reads_all_iff size, ofTokens, List.isEmpty_cons, if_neg Bool.false_ne_true,
      Fallible.bind_eq_ok_iff]
    constructor
    · rintro ⟨⟨e', rest, hrest⟩, hread, h⟩
      cases rest with
      | nil =>
        cases h
        exact ⟨hrest, hread⟩
      | cons t rest => cases h
    · rintro ⟨hrest, hread⟩
      exact ⟨_, hread, rfl⟩

/-- The parser accepts a list of tokens exactly when the grammar derives it, and answers with
the tree of the derivation.  Every other list is a syntax fault. -/
theorem ofTokens_iff_derives (size : Nat) (ts : List Lexeme) :
    (∀ e, ofTokens size ts = .ok e ↔ Derives .or (ts.map (·.token)) e) ∧
      ((∃ fault, ofTokens size ts = .error fault) ↔
        ∀ e, ¬ Derives .or (ts.map (·.token)) e) := by
  have hok : ∀ e, ofTokens size ts = .ok e ↔ Derives .or (ts.map (·.token)) e :=
    fun e => ofTokens_eq_ok_iff
  refine ⟨hok, ?_⟩
  simp only [← hok]
  cases ofTokens size ts with
  | error fault => simp
  | ok e => simp

/-- Comparisons do not chain: a second operator is the fault. -/
theorem ofTokens_chained {ls ms rs : List Lexeme} {left right : Expr} {first second : Lexeme}
    (hfirst : first.token ∈ Production.comparison.operators)
    (hsecond : second.token ∈ Production.comparison.operators)
    (hleft : Derives .unary (ls.map (·.token)) left)
    (hright : Derives .unary (ms.map (·.token)) right) :
    ofTokens size (ls ++ first :: (ms ++ second :: rs)) =
      .error ⟨second.offset, .unexpectedToken⟩ := by
  obtain ⟨firstToken, firstOffset⟩ := first
  have hls := reads_of_derives size hleft ls
    (⟨firstToken, firstOffset⟩ :: (ms ++ second :: rs)) rfl stops_unary
  have hms := reads_of_derives size hright ms (second :: rs) rfl stops_unary
  obtain ⟨e, he⟩ : ∃ e, Reads (readComparison size
      (ls ++ ⟨firstToken, firstOffset⟩ :: (ms ++ second :: rs))) e (second :: rs) := by
    simp only [Production.operators, List.mem_cons, List.not_mem_nil, or_false] at hfirst
    rcases hfirst with rfl | rfl
    · exact ⟨.eq left right, reads_readComparison_iff.2 ⟨left, _, hls, right, hms, rfl⟩⟩
    · exact ⟨.ne left right, reads_readComparison_iff.2 ⟨left, _, hls, right, hms, rfl⟩⟩
  have hends : ∀ {operator : Token}, operator ∉ Production.comparison.operators →
      ∀ t ∈ (second :: rs).head?, t.token ≠ operator := by
    intro operator hoperator t ht heq
    obtain rfl : second = t := by simpa using ht
    exact hoperator (heq ▸ hsecond)
  have hand : Reads (readAndTail size e (second :: rs)) e (second :: rs) :=
    (reads_readAndTail_of_stop (hends (by simp [Production.operators]))).2 ⟨rfl, rfl⟩
  have hor : Reads (readOrTail size e (second :: rs)) e (second :: rs) :=
    (reads_readOrTail_of_stop (hends (by simp [Production.operators]))).2 ⟨rfl, rfl⟩
  obtain ⟨_, hread⟩ := reads_readOr_iff.2 ⟨e, _, reads_readAnd_iff.2 ⟨e, _, he, hand⟩, hor⟩
  rw [ofTokens, hread, if_neg (by simp)]
  rfl

end Expr

end PipelineEngine
