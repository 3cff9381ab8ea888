import PipelineEngine.Proofs.Subscription.Delivered
import PipelineEngine.Proofs.Text.Trimmed

/-!
# The events of a written source

A source is read without the blanks around it, and what starts with `custom:` is read as the
name of custom events before anything is looked for among the tables.  Every other name with a
kind of change behind it stands for the changes of that kind of the table of that name.

* `SubscriptionSource.of_read?_append`: how a name with a kind behind it is read.
* `SubscriptionSource.Denotes`: the events that come from a source written in this way.
* `Document.matches_of_link` is the main statement, for the sources that a linked model binds.
-/

namespace PipelineEngine

/-! ## Names and kinds -/

theorem Text.mem_lowerAfter {before s : List Char} (h : ':' ∈ s) :
    ':' ∈ Text.lowerAfter before s := by
  induction s generalizing before with
  | nil => cases h
  | cons c rest ih =>
    rw [Text.lowerAfter, List.mem_append]
    rcases List.mem_cons.1 h with rfl | hrest
    · rw [if_neg (by decide)]
      exact .inl (by decide)
    · exact .inr (ih hrest)

/-- A colon stays a colon in lower case. -/
theorem Text.mem_lower {s : List Char} (h : ':' ∈ s) : ':' ∈ Text.lower s := Text.mem_lowerAfter h

namespace ChangeKind

variable (kind : ChangeKind)

/-- The name of a kind is in lower case. -/
theorem lower_name : Text.lower kind.name.toList = kind.name.toList := by
  cases kind <;> decide

theorem isBlank_of_mem_getLast?_name : ∀ c ∈ kind.name.toList.getLast?, Text.isBlank c = false := by
  intro c hlast
  cases kind <;> · obtain rfl := Option.some.inj hlast; rfl

theorem name_ne_nil : kind.name.toList ≠ [] := by
  cases kind <;> decide

theorem lookup_name : SubscriptionSource.kindNames.lookup kind.name = some kind := by
  cases kind <;> decide

/-- No name of a kind has a colon. -/
theorem lookup_of_colon {s : List Char} (h : ':' ∈ s) :
    SubscriptionSource.kindNames.lookup (String.ofList s) = none := by
  have hne : ∀ kind : ChangeKind, String.ofList s ≠ kind.name := by
    rintro kind heq
    have hmem : ':' ∈ kind.name.toList := by rwa [← heq, String.toList_ofList]
    cases kind <;> revert hmem <;> decide
  rw [List.lookup_eq_none_iff]
  intro p hp
  obtain ⟨kind, -, rfl⟩ := List.mem_map.1 hp
  exact bne_iff_ne.2 (hne kind)

end ChangeKind

/-- A text without the blanks at its front. -/
def withoutIndent (s : String) : String := String.ofList (Text.trimStart s.toList)

/-- A text that starts with no blank has nothing to lose. -/
theorem withoutIndent_eq_self {s : String} (h : ∀ c ∈ s.toList.head?, Text.isBlank c = false) :
    withoutIndent s = s := by
  rw [withoutIndent, Text.trimStart_eq_self h, String.ofList_toList]

/-- Only the name in front of a kind can lose something when a source is trimmed. -/
theorem trim_append_name (name : String) (kind : ChangeKind) :
    Text.trim (name ++ ":" ++ kind.name).toList =
      (withoutIndent name ++ ":" ++ kind.name).toList := by
  have hstart : Text.trimStart (name ++ ":" ++ kind.name).toList =
      (withoutIndent name ++ ":" ++ kind.name).toList := by
    simp only [String.toList_append, withoutIndent, String.toList_ofList, Text.trimStart,
      List.append_assoc, List.dropWhile_append]
    split
    · rename_i hnil
      rw [List.isEmpty_iff.1 hnil]
      rfl
    · rfl
  have hlast : ∀ c ∈ (withoutIndent name ++ ":" ++ kind.name).toList.getLast?,
      Text.isBlank c = false := by
    rw [String.toList_append, List.getLast?_append_of_ne_nil _ kind.name_ne_nil]
    exact kind.isBlank_of_mem_getLast?_name
  rw [Text.trim, hstart]
  simpa using @Text.trimEnd_append _ [] (List.forall_mem_nil _) hlast

namespace SubscriptionSource

variable {name text : String} {kind : ChangeKind} {source : SubscriptionSource}

/-! ## Reading -/

/-- What stands before the first colon decides what is read behind it. -/
theorem of_read?_cut {before after : List Char} (hbefore : ':' ∉ before) (hafter : after ≠ [])
    (h : read? (before ++ ':' :: after) = some source) :
    (before = "custom".toList ∧ source = .custom (String.ofList after)) ∨
      before ≠ "custom".toList ∧ ∃ kind,
        kindNames.lookup (String.ofList (Text.lower after)) = some kind ∧
          source = .table (String.ofList before) (some kind) := by
  have hfull : (!after.isEmpty) = true := by simpa using hafter
  simp only [read?, Text.cut?_append_cons hbefore, hfull, and_true] at h
  split at h
  · rename_i hcustom
    cases h
    exact .inl ⟨hcustom, rfl⟩
  · rename_i hcustom
    split at h
    · cases h
    · obtain ⟨kind, hkind, rfl⟩ := Option.map_eq_some_iff.1 h
      exact .inr ⟨hcustom, kind, hkind, rfl⟩

/-- A name with a kind behind it is read as the name of custom events when it starts with
`custom:`, and otherwise as the name of a table. -/
theorem of_read?_append (h : read? (name ++ ":" ++ kind.name).toList = some source) :
    (∃ event, name ++ ":" ++ kind.name = "custom:" ++ event ∧ source = .custom event) ∨
      (∀ event, name ++ ":" ++ kind.name ≠ "custom:" ++ event) ∧
        source = .table name (some kind) := by
  obtain ⟨before, after, hbefore, htext, hafter⟩ : ∃ before after, ':' ∉ before ∧
      (name ++ ":" ++ kind.name).toList = before ++ ':' :: after ∧
      (':' ∈ after ∨ before = name.toList ∧ after = kind.name.toList) := by
    by_cases hcolon : ':' ∈ name.toList
    · obtain ⟨before, rest, hname, hbefore⟩ := List.eq_append_cons_of_mem hcolon
      exact ⟨before, rest ++ ':' :: kind.name.toList, hbefore, by simp [hname], .inl (by simp)⟩
    · exact ⟨name.toList, kind.name.toList, hcolon, by simp, .inr ⟨rfl, rfl⟩⟩
  have hne : after ≠ [] := by
    rintro rfl
    rcases hafter with hafter | ⟨-, hafter⟩
    · cases hafter
    · exact kind.name_ne_nil hafter.symm
  rw [htext] at h
  rcases of_read?_cut hbefore hne h with ⟨rfl, rfl⟩ | ⟨hcustom, kind', hkind, rfl⟩
  · exact .inl ⟨String.ofList after, String.toList_inj.1 (by simp [htext]), rfl⟩
  · refine .inr ⟨?_, ?_⟩
    · -- the colon behind `custom` would be the first one
      intro event hevent
      have hcut : Text.cut? [':'] (before ++ ':' :: after) = some ("custom".toList, event.toList) := by
        rw [← htext, hevent, String.toList_append]
        exact Text.cut?_append_cons (s := "custom".toList) (by decide) event.toList
      rw [Text.cut?_append_cons hbefore] at hcut
      exact hcustom (congrArg Prod.fst (Option.some.inj hcut))
    · rcases hafter with hafter | ⟨rfl, rfl⟩
      · rw [ChangeKind.lookup_of_colon (Text.mem_lower hafter)] at hkind
        cases hkind
      · rw [kind.lower_name, String.ofList_toList, kind.lookup_name] at hkind
        rw [String.ofList_toList, hkind]

/-! ## Events -/

/-- The events of a source are the changes of one kind of one table, and no custom events. -/
def MatchesChanges (source : SubscriptionSource) (table : String) (kind : ChangeKind) : Prop :=
  ∀ trigger, source.covers trigger = true ↔
    ∃ e, trigger = .table e ∧ e.table = table ∧ e.kind? = some kind

/-- The events of a source are the custom events of one name, and no changes. -/
def MatchesNamed (source : SubscriptionSource) (name : String) : Prop :=
  ∀ trigger, source.covers trigger = true ↔ ∃ e, trigger = .custom e ∧ e.name = name

theorem matchesChanges_table (table : String) (kind : ChangeKind) :
    (SubscriptionSource.table table (some kind)).MatchesChanges table kind := by
  intro trigger
  cases trigger with
  | table e => simp [covers, @eq_comm _ table]
  | custom e => simp [covers]

theorem matchesNamed_custom (name : String) : (SubscriptionSource.custom name).MatchesNamed name := by
  intro trigger
  cases trigger with
  | table e => simp [covers]
  | custom e => simp [covers, @eq_comm _ name]

/-- The events of a source that is written as a name and a kind of change. -/
structure Denotes (source : SubscriptionSource) (d : Document) (name : String)
    (kind : ChangeKind) : Prop where
  /-- What does not start with `custom:` are the changes of a table of the document. -/
  changes : (∀ event, withoutIndent name ++ ":" ++ kind.name ≠ "custom:" ++ event) →
    (∃ t ∈ d.tables, t.name = withoutIndent name) ∧
      source.MatchesChanges (withoutIndent name) kind
  named : ∀ event, withoutIndent name ++ ":" ++ kind.name = "custom:" ++ event →
    source.MatchesNamed event

/-- A name that starts with no blank stands for the table of that very name. -/
theorem Denotes.matchesChanges {d : Document} (h : source.Denotes d name kind)
    (hfirst : ∀ c ∈ name.toList.head?, Text.isBlank c = false)
    (hcustom : ∀ event, name ++ ":" ++ kind.name ≠ "custom:" ++ event) :
    source.MatchesChanges name kind := by
  have hchanges := h.changes
  rw [withoutIndent_eq_self hfirst] at hchanges
  exact (hchanges hcustom).2

theorem denotes_of_parse {d : Document}
    (hparse : parse (name ++ ":" ++ kind.name) = .ok source)
    (htable : ∀ table kind, source = .table table kind → (d.table? table).isSome) :
    source.Denotes d name kind := by
  have hread : read? (withoutIndent name ++ ":" ++ kind.name).toList = some source := by
    rw [parse, trim_append_name] at hparse
    split at hparse
    · rename_i hread
      rw [hread, Except.ok.inj hparse]
    · cases hparse
  rcases of_read?_append hread with ⟨event, htext, rfl⟩ | ⟨hcustom, rfl⟩
  · refine ⟨fun hne => absurd htext (hne event), fun event' htext' => ?_⟩
    rw [htext, String.append_right_inj] at htext'
    rw [← htext']
    exact matchesNamed_custom event
  · refine ⟨fun _ => ⟨?_, matchesChanges_table _ _⟩, fun event htext => absurd htext (hcustom event)⟩
    obtain ⟨t, ht⟩ := Option.isSome_iff_exists.1 (htable _ _ rfl)
    exact ⟨t, List.mem_of_find?_eq_some ht, by simpa using List.find?_some ht⟩

end SubscriptionSource

namespace Document

variable {d : Document} {epoch : Nat} {m : Model}

/-! ## Sources of linked models -/

/-- A linked model has one binding for an endpoint that subscribes, and each source of it that is
written as a table and a kind is bound to one with the events that it denotes. -/
theorem denotes_of_link (h : d.link epoch = .ok m) {e : Endpoint} (he : e ∈ d.endpoints)
    {s : Subscription} (hs : e.subscription = some s) :
    ∃ b, m.subscriptions.filter (fun b => decide (b.endpoint = e.key)) = [b] ∧
      List.Forall₂ (fun text source => ∀ t ∈ d.tables, ∀ kind : ChangeKind,
        text = t.name ++ ":" ++ kind.name → source.Denotes d t.name kind) s.sources b.sources := by
  obtain ⟨hdocument, hresolved⟩ := isResolved_of_link h
  rw [← hdocument] at he ⊢
  have hsubscribes : e.isSubscription = true := by rw [Endpoint.isSubscription, hs]; rfl
  obtain ⟨b, hb, -, -, s', hs', hsources⟩ := exists_binding_of_link h he hsubscribes
  obtain rfl : s = s' := Option.some.inj (hs.symm.trans hs')
  have hname : ∀ e ∈ m.document.endpoints, ∀ b, e.binding? = some b → b.endpoint = e.key := by
    intro e _ b hb
    simp only [Endpoint.binding?, Option.bind_eq_bind, Option.bind_eq_some_iff, Option.pure_def,
      Option.some.injEq] at hb
    obtain ⟨_, -, _, -, _, -, rfl⟩ := hb
    rfl
  have hsubscriptions : m.subscriptions = m.document.endpoints.filterMap Endpoint.binding? := by
    rw [← (link_eq_ok_iff.1 h).2]
    rfl
  refine ⟨b, ?_, hsources.imp ?_⟩
  · rw [hsubscriptions, filter_filterMap_of_nodup Endpoint.key SubscriptionBinding.endpoint hname
      hresolved.names.endpoints he, hb, Option.toList_some]
  · rintro text source ⟨hparse, htable⟩ t - kind rfl
    exact SubscriptionSource.denotes_of_parse hparse htable

/-! ### A table called `custom` -/

/-- A table without columns. -/
def bareTable (name : String) : Table := ⟨name, [], [], none⟩

/-- An endpoint for the changes of three tables. -/
def follower : Endpoint := Publication.listener "a" ["custom:insert", " t:insert", "t:update"]

/-- A document with these tables: one is called `custom`, and a blank is all that tells the names
of the other two apart. -/
def confusing : Document :=
  ⟨[], [], [⟨"main", .mekaDb, none, none, none, none, none, none,
      [⟨none, [bareTable "custom", bareTable " t", bareTable "t"]⟩]⟩],
    ⟨.empty, some ⟨none, [follower]⟩, none, [⟨"p", [], none⟩], []⟩, []⟩

/-- What the endpoint is bound to. -/
def confused : SubscriptionBinding :=
  ⟨"a", "p", [.custom "insert", .table "t" (some .insert), .table "t" (some .update)]⟩

theorem link_confusing : confusing.link 0 = .ok (confusing.linked 0) :=
  link_eq_ok_iff.2 ⟨rfl, rfl⟩

theorem subscriptions_confusing : (confusing.linked 0).subscriptions = [confused] := rfl

/-- The endpoint gets the updates of the third table. -/
theorem denotes_of_link_confusing :
    confusing.link 0 = .ok (confusing.linked 0) ∧ follower ∈ confusing.endpoints ∧
      follower.subscription = some ⟨["custom:insert", " t:insert", "t:update"]⟩ ∧
      (SubscriptionSource.table "t" (some .update)).MatchesChanges "t" .update := by
  refine ⟨link_confusing, List.mem_cons_self, rfl, ?_⟩
  obtain ⟨b, hb, hsources⟩ := denotes_of_link link_confusing (e := follower) List.mem_cons_self rfl
  obtain rfl : confused = b := by
    rw [subscriptions_confusing] at hb
    exact (List.cons.inj hb).1
  rcases hsources with _ | ⟨-, _ | ⟨-, _ | ⟨hupdate, -⟩⟩⟩
  refine (hupdate (bareTable "t") ?_ .update rfl).matchesChanges ?_ ?_
  · exact List.mem_cons_of_mem _ (List.mem_cons_of_mem _ List.mem_cons_self)
  · intro c hfirst
    obtain rfl := Option.some.inj hfirst
    rfl
  · intro event hevent
    have hletters := congrArg String.toList hevent
    rw [show (bareTable "t").name ++ ":" ++ ChangeKind.update.name = "t:update" from rfl,
      String.toList_append] at hletters
    exact absurd (List.cons.inj hletters).1 (by decide)

/-- The endpoint gets neither the insertions into the first table nor those into the second. -/
theorem not_matchesChanges_confused :
    confusing.link 0 = .ok (confusing.linked 0) ∧
      (confusing.linked 0).subscriptions = [confused] ∧
      follower.subscription.map (·.sources) = some ["custom:insert", " t:insert", "t:update"] ∧
      confused.sources = [.custom "insert", .table "t" (some .insert), .table "t" (some .update)] ∧
      bareTable "custom" ∈ confusing.tables ∧
      ¬ (SubscriptionSource.custom "insert").MatchesChanges "custom" .insert ∧
      bareTable " t" ∈ confusing.tables ∧
      ¬ (SubscriptionSource.table "t" (some .insert)).MatchesChanges " t" .insert := by
  refine ⟨link_confusing, subscriptions_confusing, rfl, rfl, List.mem_cons_self, ?_,
    List.mem_cons_of_mem _ List.mem_cons_self, ?_⟩
  · intro hmatches
    obtain ⟨e, htrigger, -⟩ := (hmatches (.custom ⟨"insert", .null, ⟨0, 0⟩⟩)).1 rfl
    cases htrigger
  · intro hmatches
    obtain ⟨e, htrigger, htable, -⟩ :=
      (hmatches (.table (.ofChange "t" [] ⟨0, 0⟩ none .insert))).1 rfl
    cases htrigger
    exact absurd htable (by decide)

end Document

end PipelineEngine
