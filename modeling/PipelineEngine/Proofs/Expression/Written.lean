import PipelineEngine.Proofs.Expression.Grammar

/-!
# Expressions as they are written

A tree is written as the fewest tokens that the grammar derives it from: an operand stands in
parentheses only where its own production binds weaker than its place asks for.

* `Expr.derives_tokens`, by induction on the tree: the tokens of a tree derive it.
* `Expr.length_tokens_le`, by induction on the derivation: no derivation of the tree takes
  fewer tokens.
-/

namespace PipelineEngine

namespace Expr

/-! ## The tokens of a tree -/

/-- The production that gives a tree without parentheses around it. -/
def production : Expr → Production
  | .or .. => .or
  | .and .. => .and
  | .eq .. | .ne .. => .comparison
  | .not _ => .unary
  | .literal _ | .ref _ | .template _ => .primary

/-- The tokens of an operand where a production stands: in parentheses if its own production
binds weaker. -/
def operand (place own : Production) (ts : List Token) : List Token :=
  if own.rank ≤ place.rank then ts else .leftParen :: (ts ++ [.rightParen])

/-- The tokens of a tree.  Templates are no conditions and have none. -/
def tokens : Expr → List Token
  | .literal v => [.literal v]
  | .ref r => [.ref r]
  | .template _ => []
  | .not e => .not :: operand .unary e.production e.tokens
  | .eq l r => operand .unary l.production l.tokens ++ .eqEq :: operand .unary r.production r.tokens
  | .ne l r =>
    operand .unary l.production l.tokens ++ .notEq :: operand .unary r.production r.tokens
  | .and l r =>
    operand .and l.production l.tokens ++ .and :: operand .comparison r.production r.tokens
  | .or l r => operand .or l.production l.tokens ++ .or :: operand .and r.production r.tokens

/-- The expressions that conditions are made of hold no templates. -/
def IsPlain : Expr → Prop
  | .literal _ | .ref _ => True
  | .template _ => False
  | .not e => e.IsPlain
  | .eq l r | .ne l r | .and l r | .or l r => l.IsPlain ∧ r.IsPlain

/-! ## The tokens derive the tree -/

variable {c : Production} {ts : List Token} {e : Expr}

theorem Production.eq_of_rank_eq {place : Production} (h : c.rank = place.rank) : c = place := by
  cases c <;> cases place <;> first | rfl | cases h

theorem Derives.and_alone (h : Derives .comparison ts e) : Derives .and ts e := by
  have hchain : Derives .and (ts ++ operandTokens .and []) (joinLeft .and e []) := .and h nofun
  rwa [operandTokens, List.flatMap_nil, List.append_nil] at hchain

theorem Derives.or_alone (h : Derives .and ts e) : Derives .or ts e := by
  have hchain : Derives .or (ts ++ operandTokens .or []) (joinLeft .or e []) := .or h nofun
  rwa [operandTokens, List.flatMap_nil, List.append_nil] at hchain

/-- A production stands for every one that binds stronger. -/
theorem Derives.weaken {place : Production} (h : Derives c ts e) (hplace : c.rank ≤ place.rank) :
    Derives place ts e := by
  by_cases hsame : c.rank = place.rank
  · rwa [← Production.eq_of_rank_eq hsame]
  · have hlt : c.rank < place.rank := Nat.lt_of_le_of_ne hplace hsame
    match place with
    | .primary => exact absurd hlt (Nat.not_lt_zero _)
    | .unary =>
      have hprimary : Derives .primary ts e := h.weaken (Nat.le_of_lt_succ hlt)
      exact .primary hprimary
    | .comparison =>
      have hunary : Derives .unary ts e := h.weaken (Nat.le_of_lt_succ hlt)
      exact .comparison hunary
    | .and =>
      have hcomparison : Derives .comparison ts e := h.weaken (Nat.le_of_lt_succ hlt)
      exact hcomparison.and_alone
    | .or =>
      have hand : Derives .and ts e := h.weaken (Nat.le_of_lt_succ hlt)
      exact hand.or_alone
termination_by place.rank
decreasing_by all_goals decide

/-- An operand derives its tree where it stands. -/
theorem Derives.operand (place : Production) (h : Derives c ts e) :
    Derives place (operand place c ts) e := by
  rw [Expr.operand]
  split
  · apply h.weaken
    assumption
  · have hor : Derives .or ts e := h.weaken (by cases c <;> decide)
    exact (Derives.parenthesised hor).weaken (Nat.zero_le _)

section
variable {ls rs : List Token} {left right : Expr}

/-- One more operand goes to the end of a chain. -/
theorem Derives.and_snoc (hleft : Derives .and ls left) (hright : Derives .comparison rs right) :
    Derives .and (ls ++ .and :: rs) (.and left right) := by
  cases hleft with
  | @and first e operands hfirst hoperands =>
    have hall : ∀ operand ∈ operands ++ [(rs, right)], Derives .comparison operand.1 operand.2 :=
      List.forall_mem_append.2 ⟨hoperands, List.forall_mem_singleton.2 hright⟩
    simpa [operandTokens, joinLeft] using Derives.and hfirst hall

theorem Derives.or_snoc (hleft : Derives .or ls left) (hright : Derives .and rs right) :
    Derives .or (ls ++ .or :: rs) (.or left right) := by
  cases hleft with
  | @or first e operands hfirst hoperands =>
    have hall : ∀ operand ∈ operands ++ [(rs, right)], Derives .and operand.1 operand.2 :=
      List.forall_mem_append.2 ⟨hoperands, List.forall_mem_singleton.2 hright⟩
    simpa [operandTokens, joinLeft] using Derives.or hfirst hall

end

theorem derives_tokens (h : e.IsPlain) : Derives e.production e.tokens e := by
  induction e with
  | literal v => exact .literal v
  | ref r => exact .ref r
  | template segments => exact h.elim
  | not e ih => exact .not ((ih h).operand .unary)
  | eq l r ihl ihr => exact .eq ((ihl h.1).operand .unary) ((ihr h.2).operand .unary)
  | ne l r ihl ihr => exact .ne ((ihl h.1).operand .unary) ((ihr h.2).operand .unary)
  | and l r ihl ihr => exact ((ihl h.1).operand .and).and_snoc ((ihr h.2).operand .comparison)
  | or l r ihl ihr => exact ((ihl h.1).operand .or).or_snoc ((ihr h.2).operand .and)

theorem IsPlain.joinLeft {join : Expr → Expr → Expr}
    (hjoin : ∀ l r, l.IsPlain → r.IsPlain → (join l r).IsPlain)
    {operands : List (List Token × Expr)} (hoperands : ∀ operand ∈ operands, operand.2.IsPlain)
    (h : e.IsPlain) : (joinLeft join e operands).IsPlain := by
  induction operands generalizing e with
  | nil => exact h
  | cons operand operands ih =>
    obtain ⟨hoperand, hoperands⟩ := List.forall_mem_cons.1 hoperands
    exact ih hoperands (hjoin e operand.2 h hoperand)

/-- No tokens derive a template. -/
theorem Derives.isPlain (h : Derives c ts e) : e.IsPlain := by
  induction h with
  | or _ _ ihfirst ihoperands | and _ _ ihfirst ihoperands =>
    refine ihfirst.joinLeft ?_ ihoperands
    exact fun _ _ => And.intro
  | comparison _ ih | primary _ ih | not _ ih | parenthesised _ ih => exact ih
  | eq _ _ ihleft ihright | ne _ _ ihleft ihright => exact ⟨ihleft, ihright⟩
  | literal | ref => trivial

/-! ## No derivation takes fewer tokens -/

variable {place : Production}

/-- The tokens of a tree where a production stands. -/
def tokensAt (place : Production) (e : Expr) : List Token := operand place e.production e.tokens

theorem length_tokensAt_le_of_rank (h : c.rank ≤ place.rank) :
    (tokensAt place e).length ≤ (tokensAt c e).length := by
  by_cases hown : e.production.rank ≤ c.rank
  · have hsame : tokensAt place e = tokensAt c e := by
      rw [tokensAt, tokensAt, operand, operand, if_pos hown, if_pos (Nat.le_trans hown h)]
    exact Nat.le_of_eq (congrArg List.length hsame)
  · by_cases hplace : e.production.rank ≤ place.rank
    · rw [tokensAt, tokensAt, operand, operand, if_neg hown, if_pos hplace, List.length_cons,
        List.length_append]
      omega
    · have hsame : tokensAt place e = tokensAt c e := by
        rw [tokensAt, tokensAt, operand, operand, if_neg hown, if_neg hplace]
      exact Nat.le_of_eq (congrArg List.length hsame)

/-- The weakest production needs no parentheses, and one pair is enough anywhere. -/
theorem tokensAt_or (e : Expr) : tokensAt .or e = e.tokens := by
  rw [tokensAt, operand, if_pos (by cases e.production <;> decide)]

theorem length_tokensAt_le (place : Production) (e : Expr) :
    (tokensAt place e).length ≤ e.tokens.length + 2 := by
  rw [tokensAt, operand]
  split <;> simp

/-- A chain takes no more tokens than its first operand and the others. -/
theorem length_joinLeft_le {operator : Token} {join : Expr → Expr → Expr}
    (hjoin : ∀ l r, tokensAt place (join l r) = tokensAt place l ++ operator :: tokensAt c r)
    {operands : List (List Token × Expr)}
    (hoperands : ∀ operand ∈ operands, (tokensAt c operand.2).length ≤ operand.1.length) :
    (tokensAt place (joinLeft join e operands)).length ≤
      (tokensAt place e).length + (operandTokens operator operands).length := by
  induction operands generalizing e with
  | nil => exact Nat.le_add_right _ _
  | cons operand operands ih =>
    obtain ⟨hoperand, hoperands⟩ := List.forall_mem_cons.1 hoperands
    have hrest := ih (e := join e operand.2) hoperands
    rw [hjoin, List.length_append, List.length_cons] at hrest
    have htokens : (operandTokens operator (operand :: operands)).length =
        operand.1.length + 1 + (operandTokens operator operands).length := by
      simp [operandTokens]
      omega
    show (tokensAt place (joinLeft join (join e operand.2) operands)).length ≤ _
    omega

theorem length_tokens_le (h : Derives c ts e) : (tokensAt c e).length ≤ ts.length := by
  induction h with
  | @or first e operands _ _ ihfirst ihoperands =>
    have hfirst : (tokensAt .or e).length ≤ first.length :=
      Nat.le_trans (length_tokensAt_le_of_rank (by decide)) ihfirst
    rw [List.length_append]
    exact Nat.le_trans (length_joinLeft_le (fun _ _ => rfl) ihoperands)
      (Nat.add_le_add_right hfirst _)
  | @and first e operands _ _ ihfirst ihoperands =>
    have hfirst : (tokensAt .and e).length ≤ first.length :=
      Nat.le_trans (length_tokensAt_le_of_rank (by decide)) ihfirst
    rw [List.length_append]
    exact Nat.le_trans (length_joinLeft_le (fun _ _ => rfl) ihoperands)
      (Nat.add_le_add_right hfirst _)
  | comparison _ ih | primary _ ih => exact Nat.le_trans (length_tokensAt_le_of_rank (by decide)) ih
  | @eq ls rs left right _ _ ihleft ihright =>
    show (tokensAt .unary left ++ .eqEq :: tokensAt .unary right).length ≤ _
    simp only [List.length_append, List.length_cons]
    omega
  | @ne ls rs left right _ _ ihleft ihright =>
    show (tokensAt .unary left ++ .notEq :: tokensAt .unary right).length ≤ _
    simp only [List.length_append, List.length_cons]
    omega
  | @not ts e _ ih => exact Nat.succ_le_succ ih
  | @parenthesised ts e _ ih =>
    rw [tokensAt_or] at ih
    have hpair := length_tokensAt_le .primary e
    simp only [List.length_cons, List.length_append, List.length_nil]
    omega
  | literal | ref => exact Nat.le_refl _

end Expr

end PipelineEngine
