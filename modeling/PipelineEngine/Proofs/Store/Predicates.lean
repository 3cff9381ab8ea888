import PipelineEngine.Proofs.Expression.Evaluate
import PipelineEngine.Proofs.Expression.Sources
import PipelineEngine.Proofs.Run.Determined
import PipelineEngine.Proofs.Store.Insert
import PipelineEngine.Proofs.Value.Equality

/-!
# Rows that are found again

The values of a predicate go through the transforms of their columns, as those of a row do before
they are stored.  Where a column has the same steps for both and they do not look at the phase, a
value is stored as what a predicate compares with.

* `Column.transform_agrees`: the same steps make the same of a value in every phase.
* `Table.get?_of_transformRow`: each value of a row is transformed on its own.
* `Store.select_of_insert` is the main statement: a row is found by a value that was inserted
  with it.
-/

namespace PipelineEngine

open Dialogue

/-! ## Steps that do not look at the phase -/

/-- The reference reads neither the phase of a transform nor its arguments as a whole. -/
def Reference.IgnoresPhase (ref : Reference) : Prop :=
  ref.root = .args → ∃ segment path, ref.path = segment :: path ∧ segment ≠ .field "phase"

theorem Reference.resolve_withArgs {ref : Reference} {ctx : Context} {args : Value}
    (h : ref.root = .args → args.walk ref.path = ctx.args.walk ref.path) :
    ref.resolve { ctx with args } = ref.resolve ctx := by
  have hfind : ref.find { ctx with args } = ref.find ctx := by
    unfold find
    cases hroot : ref.root with
    | args => exact h hroot
    | env | pipeline | outcome | named => rfl
  rw [resolve, resolve, hfind]

namespace Column

variable {c : Column} {r : Runner} {m : Model} {table : String} {phase phase' : ColumnPhase}
variable {v w : Value} {log log' : List Exchange}

/-- Below their top, and but for the phase itself, the arguments of a transform are the same in
every phase. -/
theorem walk_transformArgs {segment : PathSegment} (h : segment ≠ .field "phase")
    (path : List PathSegment) :
    (c.transformArgs table phase v).walk (segment :: path) =
      (c.transformArgs table phase' v).walk (segment :: path) := by
  cases segment with
  | index i => rfl
  | field name =>
    have hname : name ≠ "phase" := fun heq => h (congrArg PathSegment.field heq)
    simp only [transformArgs, Value.ofPairs, Fields.ofList, Fields.extend, List.foldl_cons,
      List.foldl_nil, Value.walk, Fields.get?_insert, hname, if_false]

/-- A step that does not look at the phase gets the same input in every phase. -/
theorem confuses_transformArgs {step : Step} (h : ∀ ref ∈ step.references, ref.IgnoresPhase)
    (hook : Bool) :
    Runner.Confuses (c.transformArgs table phase v) (c.transformArgs table phase' v)
      (.planned ⟨step, hook⟩) := by
  intro p hargs
  refine Step.buildInput_congr (fun ref href => Reference.resolve_withArgs fun hroot => ?_) rfl _
  obtain ⟨segment, path, hpath, hne⟩ := h ref href hroot
  rw [hargs, hpath]
  exact walk_transformArgs hne path

theorem transformed_eq_ok_iff {result : Except RunError Execution} :
    c.transformed table phase result = .ok w ↔
      ∃ e, result = .ok e ∧ e.outcome.success = true ∧ e.outcome.body.value = w := by
  cases result with
  | error e => exact ⟨nofun, nofun⟩
  | ok e =>
    rw [transformed]
    cases hsuccess : e.outcome.success with
    | true => simp [hsuccess]
    | false => simp [hsuccess]

/-- What the same steps make of a value does not depend on the phase, and it is made in every
phase if nothing disturbs it. -/
theorem transform_agrees {provide : Providing} {result : Except TransformError Value}
    (hsteps : c.phaseSteps phase' = c.phaseSteps phase)
    (hignores : ∀ step ∈ c.phaseSteps phase, ∀ ref ∈ step.references, ref.IgnoresPhase)
    (h : (c.transform r m table phase v).Yields log (.ok w))
    (h' : (c.transform r m table phase' v).Yields log' result)
    (hfollows : Follows r.providers provide log) (hfollows' : Follows r.providers provide log') :
    ((∀ started ∈ firstTime? log', Undisturbed r.limits started log') → ∃ w', result = .ok w') ∧
      ∀ w', result = .ok w' → w' = w := by
  have hphase : c.hasPhase phase' = c.hasPhase phase := by rw [hasPhase, hasPhase, hsteps]
  rw [transform] at h h'
  rw [hphase, hsteps] at h'
  cases hhas : c.hasPhase phase with
  | false =>
    simp only [hhas, Bool.false_eq_true, if_false] at h h'
    obtain ⟨-, hw⟩ := yields_pure_iff.1 h
    obtain ⟨-, rfl⟩ := yields_pure_iff.1 h'
    obtain rfl := Except.ok.inj hw
    exact ⟨fun _ => ⟨w, rfl⟩, fun w' hw' => (Except.ok.inj hw').symm⟩
  | true =>
    simp only [hhas, if_true] at h h'
    obtain ⟨first, hfirst, hw⟩ := yields_bind_pure_iff.1 h
    obtain ⟨second, hsecond, rfl⟩ := yields_bind_pure_iff.1 h'
    obtain ⟨e, rfl, hsuccess, rfl⟩ := transformed_eq_ok_iff.1 hw.symm
    have hconfuses : ∀ stage ∈ stages none (Plan.ofSteps (c.phaseSteps phase)) (.parsed v),
        Runner.Confuses (c.transformArgs table phase v) (c.transformArgs table phase' v) stage := by
      intro stage hstage
      obtain ⟨entry, hentry, rfl⟩ := List.mem_map.1 hstage
      obtain ⟨step, hstep, rfl⟩ := List.mem_map.1 hentry
      exact confuses_transformArgs (hignores step hstep) false
    obtain ⟨hsucceeds, hbody⟩ :=
      Runner.execute_agrees hfirst hsecond hfollows hfollows' hconfuses hsuccess
    constructor
    · intro hundisturbed
      obtain ⟨e', rfl, hsuccess'⟩ := hsucceeds hundisturbed
      exact ⟨_, transformed_eq_ok_iff.2 ⟨e', rfl, hsuccess', rfl⟩⟩
    · intro w' hw'
      obtain ⟨e', rfl, hsuccess', rfl⟩ := transformed_eq_ok_iff.1 hw'
      rw [hbody e' rfl hsuccess']

end Column

/-! ## Values of rows -/

namespace Table

variable {t : Table} {r : Runner} {m : Model} {phase : ColumnPhase} {log : List Exchange}
variable {name : String} {c : Column} {v : Value}

theorem transformField_column (hcolumn : t.column? name = some c) :
    t.transformField r m phase name v = c.transform r m t.name phase v := by
  rw [transformField, hcolumn]

/-- The value that a transformed row holds in a column is what the column makes of it. -/
theorem get?_of_transformRow {row row' : Row}
    (h : (t.transformRow r m phase row).Yields log (.ok row'))
    (hcolumn : t.column? name = some c) (hv : row.get? name = some v) :
    ∃ part w, part ⊆ log ∧ (c.transform r m t.name phase v).Yields part (.ok w) ∧
      row'.get? name = some w := by
  induction row generalizing log row' with
  | nil => cases hv
  | cons field rest ih =>
    obtain ⟨k, value⟩ := field
    rw [transformRow] at h
    obtain ⟨made, front, back, hmade, hnext, rfl⟩ := yields_bind_iff.1 h
    cases made with
    | error e => cases (yields_pure_iff.1 hnext).2
    | ok w =>
      obtain ⟨others, middle, last, hothers, hlast, rfl⟩ := yields_bind_iff.1 hnext
      cases others with
      | error e => cases (yields_pure_iff.1 hlast).2
      | ok rest' =>
        obtain ⟨rfl, hrow⟩ := yields_pure_iff.1 hlast
        obtain rfl := Except.ok.inj hrow
        by_cases hname : name = k
        · subst hname
          rw [Fields.get?_cons_self] at hv
          obtain rfl := Option.some.inj hv
          rw [transformField_column hcolumn] at hmade
          exact ⟨front, w, List.subset_append_left _ _, hmade, Fields.get?_cons_self _ _ _⟩
        · rw [Fields.get?_cons_of_ne hname] at hv
          obtain ⟨part, w', hpart, hyields, hw'⟩ := ih hothers hv
          refine ⟨part, w', fun x hx => ?_, hyields, ?_⟩
          · exact List.mem_append_right _ (List.mem_append_left _ (hpart hx))
          · rw [Fields.get?_cons_of_ne hname, hw']

end Table

namespace Store

variable {c : Rules} {t : Table} {phase : ColumnPhase} {log : List Exchange}
variable {name : String} {col : Column} {v : Value}

theorem Rules.get?_of_transform {row row' : Row}
    (h : (c.transform t phase row).Yields log (.ok row'))
    (hcolumn : t.column? name = some col) (hv : row.get? name = some v) :
    ∃ part w, part ⊆ log ∧ (col.transform c.runner c.model t.name phase v).Yields part (.ok w) ∧
      row'.get? name = some w := by
  obtain ⟨result, hresult, hrow⟩ := yields_bind_pure_iff.1 h
  rw [Fallible.mapError_eq_ok_iff.1 hrow.symm] at hresult
  exact Table.get?_of_transformRow hresult hcolumn hv

/-- The transform of a predicate with one value is that of the value. -/
theorem Rules.transform_single {result : Except StoreError Row}
    (h : (c.transform t phase [(name, v)]).Yields log result)
    (hcolumn : t.column? name = some col) :
    ∃ made, (col.transform c.runner c.model t.name phase v).Yields log made ∧
      result = (made.map fun w => [(name, w)]).mapError .transform := by
  obtain ⟨row, hrow, rfl⟩ := yields_bind_pure_iff.1 h
  rw [Table.transformRow, Table.transformField_column hcolumn] at hrow
  obtain ⟨made, front, back, hmade, hback, rfl⟩ := yields_bind_iff.1 hrow
  refine ⟨made, ?_⟩
  cases made with
  | error e =>
    obtain ⟨rfl, rfl⟩ := yields_pure_iff.1 hback
    exact ⟨(List.append_nil front).symm ▸ hmade, rfl⟩
  | ok w =>
    obtain ⟨rest, middle, last, hrest, hlast, rfl⟩ := yields_bind_iff.1 hback
    obtain ⟨rfl, rfl⟩ := yields_pure_iff.1 hrest
    obtain ⟨rfl, rfl⟩ := yields_pure_iff.1 hlast
    exact ⟨(List.append_nil front).symm ▸ hmade, rfl⟩

section
variable {σ : Type} {answer : (q : Request) → σ → q.Answer × σ} {provide : Providing}
variable {s s' : Store} {table : String} {row fetched stored : Row} {user : Option String}
variable {x x' : σ} {w : Value}

/-- An insertion that succeeds has put the row that it stores behind the others of its table. -/
theorem stores_of_insert
    (hinsert : (s.insert c table row user).runWith answer x = ((s', .ok fetched), x'))
    (htable : c.model.table? table = some t) :
    ∃ stored x'', s.Stores answer c table row user x t stored x'' ∧
      s'.tables.rows table = s.tables.rows table ++ [stored] := by
  have hanswer := congrArg Prod.fst hinsert
  rcases refused_or_stores answer s c table row user x with
    ⟨ids, e, hrefused, -⟩ | ⟨t', stored, x'', hstores⟩
  · cases hanswer.symm.trans hrefused
  · obtain ⟨htable', -⟩ := Rules.tableFor_eq_ok_iff.1 hstores.fits
    obtain rfl := Option.some.inj (htable.symm.trans htable')
    obtain ⟨⟨ids, hrun⟩, -⟩ := insert_of_stores answer s c table row user x hstores
    obtain ⟨rfl, -⟩ := Prod.mk.inj (hanswer.symm.trans hrun)
    refine ⟨stored, x'', hstores, ?_⟩
    rw [Rules.name_of_tableFor hstores.fits, Tables.rows_push, if_pos rfl]

/-- The row that is stored holds what the steps for stored values make of a value, unless that is
null. -/
theorem Stores.get?_eq {x'' : σ} (h : s.Stores answer c table row user x t stored x'')
    (hprovide : ProvidesBy answer c.runner.providers provide)
    (hcolumn : t.column? name = some col) (hv : row.get? name = some v)
    (hignores : ∀ step ∈ col.phaseSteps .write, ∀ ref ∈ step.references, ref.IgnoresPhase)
    (hfollows : Follows c.runner.providers provide log)
    (hwrite : (col.transform c.runner c.model t.name .write v).Yields log (.ok w))
    (hnull : w ≠ .null) : stored.get? name = some w := by
  obtain ⟨written, x₁, ids, x₂, hwritten, hcompleted, -⟩ := h.prepared
  have hyields := yields_exchanges answer (c.transform t .write row) x
  rw [hwritten] at hyields
  -- The insertion has made its own transform of the value, in surroundings of its own.
  obtain ⟨part, w', hpart, hmade, hw'⟩ := Rules.get?_of_transform hyields hcolumn hv
  have hpartFollows := (hprovide.follows (c.transform t .write row) x).of_subset hpart
  obtain ⟨-, hsame⟩ := Column.transform_agrees rfl hignores hwrite hmade hfollows hpartFollows
  obtain rfl := hsame w' rfl
  have hholds : written.holds name = true := Row.holds_iff.2 ⟨w', hw', by cases w' <;> trivial⟩
  have hreturned := mayReturn_runWith answer (t.completeRow c.shortener s.ids written) x₁
  rw [hcompleted] at hreturned
  rw [Table.get?_of_completeRow hreturned hholds, hw']

/-- A row is found again by a value that it was inserted with.  The column has the same steps for
the values of predicates and for stored ones, they ask providers that are functions, and they look
neither at the phase nor at their arguments as a whole.  If what they make of the value is not
null, then right after the insertion they make the same of the value in a predicate, unless
something disturbs that, and the row that was stored is one of those that match it. -/
theorem select_of_insert (hprovide : ProvidesBy answer c.runner.providers provide)
    (hinsert : (s.insert c table row user).runWith answer x = ((s', .ok fetched), x'))
    (htable : c.model.table? table = some t) (hcolumn : t.column? name = some col)
    (hv : row.get? name = some v) (hsteps : col.phaseSteps .args = col.phaseSteps .write)
    (hignores : ∀ step ∈ col.phaseSteps .write, ∀ ref ∈ step.references, ref.IgnoresPhase) {y : σ}
    (hwrite : ((col.transform c.runner c.model table .write v).runWith answer y).1 = .ok w)
    (hnull : w ≠ .null) (hjson : w.IsJson) :
    let predicate := c.transform t .args [(name, v)]
    ∃ stored, s'.tables.rows table = s.tables.rows table ++ [stored] ∧
      ((∀ started ∈ firstTime? (predicate.exchanges answer x'),
          Undisturbed c.runner.limits started (predicate.exchanges answer x')) →
        ∃ filter, (predicate.runWith answer x').1 = .ok filter) ∧
      ∀ filter x'', predicate.runWith answer x' = (.ok filter, x'') →
        let found := (s'.tables.rows table).filter (·.matchesAll filter)
        stored ∈ found ∧ (s'.select c table [(name, v)]).runWith answer x' =
          (c.fetchAll t found).runWith answer x'' := by
  intro predicate
  obtain ⟨stored, after, hstores, hrows⟩ := stores_of_insert hinsert htable
  have hname := Rules.name_of_tableFor hstores.fits
  have hwritten := yields_exchanges answer (col.transform c.runner c.model t.name .write v) y
  rw [hname, hwrite] at hwritten
  have hfollows := hprovide.follows (col.transform c.runner c.model table .write v) y
  have hget : stored.get? name = some w := by
    refine hstores.get?_eq hprovide hcolumn hv hignores hfollows ?_ hnull
    rw [hname]
    exact hwritten
  obtain ⟨made, hmade, hresult⟩ :=
    Rules.transform_single (yields_exchanges answer predicate x') hcolumn
  rw [hname] at hmade
  obtain ⟨hsucceeds, hsame⟩ := Column.transform_agrees hsteps hignores hwritten hmade hfollows
    (hprovide.follows predicate x')
  refine ⟨stored, hrows, fun hundisturbed => ?_, fun filter x'' hfilter => ⟨?_, ?_⟩⟩
  · obtain ⟨w', rfl⟩ := hsucceeds hundisturbed
    exact ⟨[(name, w')], hresult⟩
  · rw [hfilter] at hresult
    obtain ⟨w', hw', rfl⟩ := Fallible.map_eq_ok_iff.1 (Fallible.mapError_eq_ok_iff.1 hresult.symm)
    obtain rfl := hsame w' hw'
    have hmatches : stored.matchesAll [(name, w')] = true := by
      simp [Row.matchesAll, hget, Value.equal_self hjson]
    rw [hrows]
    exact List.mem_filter.2 ⟨List.mem_append_right _ List.mem_cons_self, hmatches⟩
  · have hfits : c.tableFor table [[(name, v)]] = .ok t := by
      refine Rules.tableFor_eq_ok_iff.2 ⟨htable, List.forall_mem_singleton.2 ?_⟩
      refine List.forall_mem_singleton.2 ?_
      rw [hcolumn, Option.isSome_some]
    simp only [select, hfits]
    rw [runWith_seq, hfilter]

end

/-! ## Notes that are wrapped -/

/-- Puts a value into an object, under a name of its own. -/
def wrapping : Step :=
  ⟨"wrap", "builtin:identity", [⟨"$\x7bargs.value\x7d", some "wrapped"⟩], none, none⟩

/-- Texts that are wrapped where they are stored and where they are looked for. -/
def wrappedText : Column := ⟨"text", .text, true, false, none, some ⟨[wrapping], [wrapping], []⟩⟩

def wrapped : List Table := [⟨"note", [.ofNumbers "id" true true, wrappedText], [], none⟩]

/-- A text as it is stored, and the note that holds it. -/
def wrappedValue : Value := .object [("wrapped", .string "x")]

def wrappedNote : Row := [("id", .int 1), ("text", wrappedValue)]

theorem parse_value : Expr.parseMapping "$\x7bargs.value\x7d" =
    .ok (.ref ⟨"args.value", .args, [.field "value"]⟩) := by
  have hpath : Reference.SpellsPath [.field "value"] ".value".toList := .field (by decide) .nil
  have hspelled : Reference.IsSpelled ⟨"args.value", .args, [.field "value"]⟩ "args.value".toList :=
    ⟨trivial, ⟨_, rfl, hpath⟩, [], [], List.forall_mem_nil _, List.forall_mem_nil _, rfl⟩
  exact Expr.parseMapping_of_isSpelled hspelled rfl

theorem buildInput_wrapping (phase : ColumnPhase) (env : Fields String) (initial : Payload) :
    wrapping.buildInput (.start (wrappedText.transformArgs "note" phase (.string "x")) env)
      initial = .ok (.parsed wrappedValue) := by
  have hmapping : Mapping.evaluate ⟨"$\x7bargs.value\x7d", some "wrapped"⟩
      (.start (wrappedText.transformArgs "note" phase (.string "x")) env) =
        .ok (.string "x") := by
    rw [Mapping.evaluate, parse_value]
    rfl
  simp only [Step.buildInput, wrapping, Mapping.writeAll, hmapping]
  rfl

theorem transform_wrapping {phase : ColumnPhase} (h : wrappedText.phaseSteps phase = [wrapping]) :
    (wrappedText.transform (Rules.ofTables wrapped).runner (Rules.ofTables wrapped).model "note"
        phase (.string "x")).runWith prompt () = (.ok wrappedValue, ()) := by
  simp only [Column.transform, Column.hasPhase, h, Runner.runSteps, Runner.execute, Runner.runAll,
    Plan.ofSteps, List.map_cons, List.map_nil, Runner.runPlan, buildInput_wrapping]
  rfl

theorem insert_wrapped :
    ((Store.empty default).insert (.ofTables wrapped) "note"
        [("id", .int 1), ("text", .string "x")] none).runWith prompt () =
      ((⟨[("note", [wrappedNote])], default⟩, .ok wrappedNote), ()) := by
  have htext : (wrapped[0].transformField (Rules.ofTables wrapped).runner
      (Rules.ofTables wrapped).model .write "text" (.string "x")).runWith prompt () =
        (.ok wrappedValue, ()) :=
    transform_wrapping rfl
  have hid : (wrapped[0].transformField (Rules.ofTables wrapped).runner
      (Rules.ofTables wrapped).model .write "id" (.int 1)).runWith prompt () =
        (.ok (.int 1), ()) := rfl
  have hwritten : ((Rules.ofTables wrapped).transform wrapped[0] .write
      [("id", .int 1), ("text", .string "x")]).runWith prompt () = (.ok wrappedNote, ()) := by
    simp only [Rules.transform, Table.transformRow, runWith_seq, hid, htext]
    rfl
  obtain ⟨hrun, -⟩ := insert_of_completed prompt (Store.empty default) (.ofTables wrapped) "note"
    [("id", .int 1), ("text", .string "x")] none () rfl hwritten rfl
  rw [hrun]
  rfl

/-- What is asked and answered while the text of a predicate is wrapped. -/
theorem exchanges_wrapping :
    ((Rules.ofTables wrapped).transform wrapped[0] .args
        [("text", .string "x")]).exchanges prompt () =
      [⟨.uuid, default⟩, ⟨.now, default⟩, ⟨.isCancelled, false⟩, ⟨.now, default⟩, ⟨.now, default⟩,
        ⟨.timer, (0 : Nat)⟩,
        ⟨.invoke ⟨wrapping, .builtin "identity", .builtin "identity", .parsed wrappedValue⟩ 30000
          (some 300000), .returned (.parsed wrappedValue)⟩,
        ⟨.now, default⟩] := by
  have hcolumn : wrapped[0].column? "text" = some wrappedText := rfl
  have hname : (wrapped[0]).name = "note" := rfl
  have hphase : wrappedText.phaseSteps .args = [wrapping] := rfl
  simp only [Rules.transform, Table.transformRow, Table.transformField, hcolumn, hname,
    Column.transform, Column.hasPhase, hphase, Runner.runSteps, Runner.execute, Runner.runAll,
    Plan.ofSteps, List.map_cons, List.map_nil, Runner.runPlan, buildInput_wrapping]
  rfl

/-- A note is found again by its text, which is stored in another form. -/
theorem select_of_insert_wrapped :
    let predicate := (Rules.ofTables wrapped).transform wrapped[0] .args [("text", .string "x")]
    ((Store.empty default).insert (.ofTables wrapped) "note"
        [("id", .int 1), ("text", .string "x")] none).runWith prompt () =
      ((⟨[("note", [wrappedNote])], default⟩, .ok wrappedNote), ()) ∧
    wrappedText.phaseSteps .args = wrappedText.phaseSteps .write ∧
    ∃ filter, (predicate.runWith prompt ()).1 = .ok filter ∧
      wrappedNote ∈ [wrappedNote].filter (·.matchesAll filter) := by
  intro predicate
  have hignores : ∀ step ∈ wrappedText.phaseSteps .write, ∀ ref ∈ step.references,
      ref.IgnoresPhase := by
    refine List.forall_mem_singleton.2 ?_
    simp only [Step.references, wrapping, List.flatMap_cons, List.flatMap_nil, Mapping.references,
      parse_value, Expr.references, List.append_nil, List.forall_mem_singleton]
    exact fun _ => ⟨.field "value", [], rfl, by decide⟩
  have hnull : wrappedValue ≠ .null := fun h => Value.noConfusion h
  have hjson : wrappedValue.IsJson := by
    refine .object (List.pairwise_singleton _ _) fun name v hv => ?_
    obtain ⟨-, rfl⟩ := Prod.mk.inj (List.mem_singleton.1 (Fields.mem_of_get? hv))
    exact .string "x"
  have hundisturbed : Undisturbed (Rules.ofTables wrapped).runner.limits default
      (predicate.exchanges prompt ()) := by
    rw [exchanges_wrapping]
    refine ⟨by simp [Cancelled, Exchange.Cancels], ?_, ?_⟩
    · intro call reply hmem
      obtain ⟨rfl, rfl⟩ := Prod.mk.inj (List.mem_singleton.1 hmem)
      exact id
    · intro x hx now hnow
      simp only [List.mem_cons, List.not_mem_nil, or_false] at hx
      rcases hx with rfl | rfl | rfl | rfl | rfl | rfl | rfl | rfl <;> cases hnow <;> decide
  have htable : (Rules.ofTables wrapped).model.table? "note" = some wrapped[0] := rfl
  have hcolumn : wrapped[0].column? "text" = some wrappedText := rfl
  have hwrite := congrArg Prod.fst (@transform_wrapping .write rfl)
  obtain ⟨stored, hrows, hsucceeds, hfinds⟩ := select_of_insert (providesBy_prompt _)
    insert_wrapped htable hcolumn rfl rfl hignores hwrite hnull hjson
  obtain rfl : wrappedNote = stored := List.singleton_inj.1 hrows
  have hfirst : firstTime? (predicate.exchanges prompt ()) = some default := by
    rw [exchanges_wrapping]
    rfl
  obtain ⟨filter, hfilter⟩ := hsucceeds fun started hstarted => by
    obtain rfl := Option.some.inj (hfirst.symm.trans hstarted)
    exact hundisturbed
  exact ⟨insert_wrapped, rfl, filter, hfilter, (hfinds filter _ (Prod.ext hfilter rfl)).1⟩

end Store

end PipelineEngine
