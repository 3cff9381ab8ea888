import PipelineEngine.Proofs.Expression.Evaluate
import PipelineEngine.Proofs.Model.Resolved
import PipelineEngine.Proofs.Response.Mapped

/-!
# Which rule answers

The rules of an endpoint are gone through in order.  A rule whose condition is absent or true is
taken, one whose condition is false or lacks a value is passed over, and a condition that cannot
be read ends the search.

* `ResponseRule.holds_or_fails`: there are no other rules.
* `Response.takesFirst_select`, by induction on the rules before the one that is taken.
* `Response.select_of_link`: in a linked document every condition, selection and mapping can be
  read, so where a rule has no condition only a reference without a value is left to fail.
-/

namespace PipelineEngine

namespace ResponseRule

/-- What the condition of a rule is read as. -/
def parsed? (r : ResponseRule) : Option (Except ExpressionError Expr) :=
  r.condition.map Expr.parseCondition

/-- The condition of a rule is absent, or it can be read. -/
def IsReadable (r : ResponseRule) : Prop := ∀ error, r.parsed? ≠ some (.error error)

/-- The condition of a rule is absent, or it is read and has a true value. -/
inductive Holds (r : ResponseRule) (view : Context) : Prop
  | always (h : r.condition = none)
  | truthy {e : Expr} {v : Value} (h : r.parsed? = some (.ok e)) (hv : e.evaluate view = .ok v)
      (htruthy : v.truthy = true)

/-- The condition of a rule is read, and its value is false or missing. -/
inductive Fails (r : ResponseRule) (view : Context) : Prop
  | falsy {e : Expr} {v : Value} (h : r.parsed? = some (.ok e)) (hv : e.evaluate view = .ok v)
      (hfalsy : v.truthy = false)
  | unresolved {e : Expr} {u : UnresolvedReference} (h : r.parsed? = some (.ok e))
      (hu : e.evaluate view = .error u)

variable {r : ResponseRule} {view : Context} {error : ExpressionError}

theorem exists_condition {parsed : Except ExpressionError Expr} (h : r.parsed? = some parsed) :
    ∃ text, r.condition = some text ∧ Expr.parseCondition text = parsed :=
  Option.map_eq_some_iff.1 h

theorem Holds.holds (h : r.Holds view) : r.holds view = .ok true := by
  cases h with
  | always h => rw [ResponseRule.holds, h]
  | truthy h hv htruthy =>
    obtain ⟨text, hcondition, hparse⟩ := exists_condition h
    simp [ResponseRule.holds, hcondition, hparse, Expr.test, hv, htruthy, Except.map, bind,
      Except.bind]

theorem Fails.holds (h : r.Fails view) : r.holds view = .ok false := by
  cases h with
  | falsy h hv hfalsy =>
    obtain ⟨text, hcondition, hparse⟩ := exists_condition h
    simp [ResponseRule.holds, hcondition, hparse, Expr.test, hv, hfalsy, Except.map, bind,
      Except.bind]
  | unresolved h hu =>
    obtain ⟨text, hcondition, hparse⟩ := exists_condition h
    simp [ResponseRule.holds, hcondition, hparse, Expr.test, hu, Except.map, bind, Except.bind]

theorem holds_of_parsed? (h : r.parsed? = some (.error error)) : r.holds view = .error error := by
  obtain ⟨text, hcondition, hparse⟩ := exists_condition h
  rw [holds, hcondition]
  simp [hparse, bind, Except.bind]

/-- A rule holds or fails, unless its condition cannot be read. -/
theorem holds_or_fails (r : ResponseRule) (view : Context) :
    r.Holds view ∨ r.Fails view ∨ ∃ error, r.parsed? = some (.error error) := by
  cases hparsed : r.parsed? with
  | none => exact .inl (.always (Option.map_eq_none_iff.1 hparsed))
  | some parsed =>
    cases parsed with
    | error error => exact .inr (.inr ⟨error, rfl⟩)
    | ok e =>
      cases hvalue : e.evaluate view with
      | error u => exact .inr (.inl (.unresolved hparsed hvalue))
      | ok v =>
        cases htruthy : v.truthy with
        | false => exact .inr (.inl (.falsy hparsed hvalue htruthy))
        | true => exact .inl (.truthy hparsed hvalue htruthy)

theorem Holds.not_fails (h : r.Holds view) : ¬ r.Fails view := fun hfails => by
  have hsame := h.holds.symm.trans hfails.holds
  cases hsame

theorem Fails.isReadable (h : r.Fails view) : r.IsReadable := fun error herror => by
  have hsame := h.holds.symm.trans (holds_of_parsed? herror)
  cases hsame

theorem fails_iff : r.Fails view ↔ r.IsReadable ∧ ¬ r.Holds view := by
  constructor
  · exact fun h => ⟨h.isReadable, fun hholds => hholds.not_fails h⟩
  · rintro ⟨hreadable, hholds⟩
    rcases holds_or_fails r view with h | h | ⟨error, h⟩
    · exact absurd h hholds
    · exact h
    · exact absurd h (hreadable error)

theorem Parses.isReadable (h : r.Parses) : r.IsReadable := fun error herror => by
  obtain ⟨text, hcondition, hparse⟩ := exists_condition herror
  obtain ⟨e, he⟩ := h.condition text hcondition
  cases hparse.symm.trans he

/-! ## The first rule that holds -/

variable {endpoint : String} {rules others before after : List ResponseRule}

theorem firstHolding_cons_of_holds (h : r.Holds view) :
    firstHolding endpoint view (r :: after) = .ok r := by
  rw [firstHolding, h.holds]

theorem firstHolding_cons_of_fails (h : r.Fails view) :
    firstHolding endpoint view (r :: after) = firstHolding endpoint view after := by
  rw [firstHolding, h.holds]

theorem firstHolding_append_of_fails (h : ∀ b ∈ before, b.Fails view) :
    firstHolding endpoint view (before ++ rules) = firstHolding endpoint view rules := by
  induction before with
  | nil => rfl
  | cons b before ih =>
    obtain ⟨hb, hbefore⟩ := List.forall_mem_cons.1 h
    rw [List.cons_append, firstHolding_cons_of_fails hb, ih hbefore]

/-- Every rule fails, or there is a first one that does not. -/
theorem exists_first (rules : List ResponseRule) (view : Context) :
    (∀ r ∈ rules, r.Fails view) ∨ ∃ before r after, rules = before ++ r :: after ∧
      (∀ b ∈ before, b.Fails view) ∧ ¬ r.Fails view := by
  induction rules with
  | nil => exact .inl nofun
  | cons r rest ih =>
    by_cases hr : r.Fails view
    · rcases ih with hrest | ⟨before, first, after, rfl, hbefore, hfirst⟩
      · exact .inl (List.forall_mem_cons.2 ⟨hr, hrest⟩)
      · exact .inr ⟨r :: before, first, after, rfl, List.forall_mem_cons.2 ⟨hr, hbefore⟩, hfirst⟩
    · exact .inr ⟨[], r, rest, rfl, nofun, hr⟩

/-! ## The answer of a rule -/

variable {o : Outcome} {ctx : Context}

theorem Parses.exists_view? (h : r.Parses) (o : Outcome) (ctx : Context) :
    ∃ view, r.view? o ctx = some view := by
  rw [view?]
  cases hselection : r.selection with
  | none => exact ⟨ctx, rfl⟩
  | some spec =>
    obtain ⟨y, hy⟩ := h.selection spec hselection
    simp [hy, Except.toOption]

/-- Every answer of a rule names its status. -/
inductive Answers (endpoint : String) (r : ResponseRule) : Except SelectError Response → Prop
  | response (body : Payload) : Answers endpoint r (.ok ⟨r.status, body⟩)
  | expression (error : ExpressionError) :
      Answers endpoint r (.error (.expression endpoint r.status error))
  | yield (error : YieldError) : Answers endpoint r (.error (.yield endpoint r.status error))

end ResponseRule

namespace Response

variable {endpoint : String} {rules before after : List ResponseRule} {r : ResponseRule}
variable {o : Outcome} {ctx : Context} {error : ExpressionError}

theorem select_eq_bind : select endpoint rules o ctx =
    (ResponseRule.firstHolding endpoint (ctx.withOutcome o) rules).bind fun r =>
      r.shape endpoint o (ctx.withOutcome o) :=
  rfl

theorem select_of_holds (hbefore : ∀ b ∈ before, b.Fails (ctx.withOutcome o))
    (hr : r.Holds (ctx.withOutcome o)) :
    select endpoint (before ++ r :: after) o ctx = r.shape endpoint o (ctx.withOutcome o) := by
  rw [select_eq_bind, ResponseRule.firstHolding_append_of_fails hbefore,
    ResponseRule.firstHolding_cons_of_holds hr]
  rfl

/-- A rule for orders that a step says are late. -/
def late : ResponseRule := ⟨202, some "$\x7blate\x7d", none, []⟩

/-- A rule for all other orders. -/
def refused : ResponseRule := ⟨500, none, some "0", [⟨"$\x7berror\x7d", none⟩]⟩

/-- A rule with an empty condition, which cannot be read. -/
def blank : ResponseRule := ⟨400, some "", none, []⟩

/-- The outcome of an order that cannot be packed. -/
def unpacked : Outcome := .failed "pack" "out of stock" none

/-- What the rules see of it. -/
def orderView : Context := (Context.start .null []).withOutcome unpacked

theorem parsed?_late : late.parsed? = some (.ok (.ref ⟨String.ofList ['l', 'a', 't', 'e'],
    .named (String.ofList ['l', 'a', 't', 'e']), []⟩)) :=
  congrArg some (Expr.parseCondition_of_name rfl (by decide) (List.all_eq_true.1 rfl) (by decide))

theorem parsed?_accepted :
    accepted.parsed? = some (.ok (.ref ⟨String.ofList ['s', 'u', 'c', 'c', 'e', 's', 's'],
      .named (String.ofList ['s', 'u', 'c', 'c', 'e', 's', 's']), []⟩)) :=
  congrArg some (Expr.parseCondition_of_name rfl (by decide) (List.all_eq_true.1 rfl) (by decide))

/-- The rules of an endpoint for orders. -/
def orderRules : List ResponseRule := [late, accepted, refused]

variable {d : Document} {m : Model} {epoch : Nat}

/-- An endpoint of a linked document that has a rule without a condition answers every outcome
with the status of the first rule that holds, unless a reference of its mappings has no value. -/
theorem select_of_link (h : d.link epoch = .ok m) {e : Endpoint} (he : e ∈ d.endpoints)
    (hfallback : ∃ r ∈ e.responses, r.isFallback) (endpoint : String) (o : Outcome)
    (ctx : Context) :
    ∃ before r after view, e.responses = before ++ r :: after ∧
      (∀ b ∈ before, b.Fails (ctx.withOutcome o)) ∧ r.Holds (ctx.withOutcome o) ∧
      r.view? o (ctx.withOutcome o) = some view ∧
      ((∃ body, select endpoint e.responses o ctx = .ok ⟨r.status, body⟩) ∨
        ∃ mapping ∈ r.mappings, ∃ ref ∈ mapping.references, ∃ u, ref.resolve view = .error u ∧
          select endpoint e.responses o ctx =
            .error (.expression endpoint r.status (.unresolved u))) := by
  have hparses : ∀ r ∈ e.responses, r.Parses := fun r hr =>
    Document.parses_of_link h ((Document.link_eq_ok_iff.1 h).2 ▸ he) hr
  rcases ResponseRule.exists_first e.responses (ctx.withOutcome o) with
    hall | ⟨before, r, after, hsplit, hbefore, hfirst⟩
  · obtain ⟨r, hr, hnone⟩ := hfallback
    have hholds : r.Holds (ctx.withOutcome o) := .always (Option.isNone_iff_eq_none.1 hnone)
    exact absurd (hall r hr) hholds.not_fails
  · have hr : r.Parses := hparses r (by simp [hsplit])
    have hholds : r.Holds (ctx.withOutcome o) := by
      by_contra hnot
      exact hfirst (ResponseRule.fails_iff.2 ⟨hr.isReadable, hnot⟩)
    obtain ⟨view, hview⟩ := hr.exists_view? o (ctx.withOutcome o)
    refine ⟨before, r, after, view, hsplit, hbefore, hholds, hview, ?_⟩
    rw [hsplit, select_of_holds hbefore hholds]
    obtain ⟨body, hshape⟩ : ∃ body, r.shape endpoint o (ctx.withOutcome o) = _ :=
      ResponseRule.shape_of_view? hview
    rw [hshape]
    split
    · exact .inl ⟨body, rfl⟩
    · cases hwrite : Mapping.writeAll view r.mappings [] with
      | ok fields => exact .inl ⟨_, rfl⟩
      | error error =>
        obtain ⟨u, rfl⟩ := Mapping.exists_unresolved_of_writeAll hr.mappings hwrite
        obtain ⟨mapping, hmapping, ref, href, hfails⟩ := Mapping.exists_reference_of_writeAll hwrite
        exact .inr ⟨mapping, hmapping, ref, href, u, hfails, rfl⟩

theorem parses_of_mem_orderRules : ∀ r ∈ orderRules, r.Parses := by
  have hstamp := @Expr.parseMapping_of_name "$\x7bstamp\x7d" "stamp".toList rfl (by decide)
    (List.all_eq_true.1 rfl) (by decide)
  have herror := @Expr.parseMapping_of_name "$\x7berror\x7d" "error".toList rfl (by decide)
    (List.all_eq_true.1 rfl) (by decide)
  have hlate : late.Parses := by
    refine ⟨?_, nofun, nofun⟩
    rintro _ ⟨⟩
    exact ⟨_, Option.some.inj parsed?_late⟩
  have haccepted : accepted.Parses := by
    refine ⟨?_, ?_, List.forall_mem_singleton.2 ⟨_, hstamp⟩⟩
    · rintro _ ⟨⟩
      exact ⟨_, Option.some.inj parsed?_accepted⟩
    · rintro _ ⟨⟩
      exact ⟨_, rfl⟩
  have hrefused : refused.Parses := by
    refine ⟨nofun, ?_, List.forall_mem_singleton.2 ⟨_, herror⟩⟩
    rintro _ ⟨⟩
    exact ⟨_, rfl⟩
  exact List.forall_mem_cons.2 ⟨hlate, List.forall_mem_cons.2 ⟨haccepted,
    List.forall_mem_singleton.2 hrefused⟩⟩

/-- An endpoint for orders, and a document that has no other. -/
def orderEndpoint : Endpoint :=
  ⟨some "order", none, .post, none, none, none, orderRules, none⟩

def orderDocument : Document where
  info := []
  env := []
  databases := []
  apis := {
    globalOptions := ⟨[], [], ⟨[], []⟩⟩
    rest := some ⟨none, [orderEndpoint]⟩
    graphql := none
    pipelines := []
    jobs := [] }
  stepBuilders := []

theorem link_orderDocument : orderDocument.link 0 = .ok (orderDocument.linked 0) := by
  have hendpoint : orderEndpoint.faults orderDocument = [] := by
    rw [Endpoint.faults, List.append_eq_nil_iff, List.append_eq_nil_iff, List.flatMap_eq_nil_iff]
    refine ⟨⟨rfl, fun entry hmem => ?_⟩, rfl⟩
    exact ResponseRule.faults_eq_nil_iff.2
      (parses_of_mem_orderRules entry.1 (List.fst_mem_of_mem_zipIdx hmem))
  have hfaults : orderDocument.faults = [] := by
    show ([] ++ (orderEndpoint.faults orderDocument ++ [])) ++ [] = []
    rw [hendpoint]
    rfl
  exact Document.link_eq_ok_iff.2 ⟨hfaults, rfl⟩

theorem select_of_link_order :
    orderDocument.link 0 = .ok (orderDocument.linked 0) ∧ orderEndpoint ∈ orderDocument.endpoints ∧
      (∃ r ∈ orderEndpoint.responses, r.isFallback) ∧
      ∃ before r after view, orderRules = before ++ r :: after ∧
        (∀ b ∈ before, b.Fails orderView) ∧ r.Holds orderView ∧
        r.view? unpacked orderView = some view ∧
        ((∃ body, select "order" orderRules unpacked (.start .null []) = .ok ⟨r.status, body⟩) ∨
          ∃ mapping ∈ r.mappings, ∃ ref ∈ mapping.references, ∃ u, ref.resolve view = .error u ∧
            select "order" orderRules unpacked (.start .null []) =
              .error (.expression "order" r.status (.unresolved u))) := by
  have hmem : orderEndpoint ∈ orderDocument.endpoints := List.mem_singleton_self _
  have hfallback : ∃ r ∈ orderEndpoint.responses, r.isFallback := ⟨refused, by decide, rfl⟩
  exact ⟨link_orderDocument, hmem, hfallback,
    select_of_link link_orderDocument hmem hfallback "order" unpacked (.start .null [])⟩

end Response

end PipelineEngine
