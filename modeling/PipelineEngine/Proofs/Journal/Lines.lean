import Mathlib.Data.List.Forall2
import PipelineEngine.Journal.Lines
import PipelineEngine.Proofs.Calendar.Timestamps
import PipelineEngine.Proofs.Fallible
import PipelineEngine.Proofs.Identifier.Uuids
import PipelineEngine.Proofs.Value.Texts

/-!
# Journals that are written and read

An entry is read from the line that it is written as, whatever its texts are, and no entry takes
more than one line.  So a journal is read as the entries that were appended to it, in their order.

* `RunEvent.IsValid`: the entries that there are.
* `Journal.eventOfLine?_line`: an entry is read from its line.
* `Journal.replay_eq_ok_iff`: what the lines of any journal must be for it to be read.
* `EventStore.History`: what is done with a store.
* `EventStore.replay_of_history` is the main statement.
-/

namespace PipelineEngine

/-! ## Entries -/

namespace RunEvent

variable {e : RunEvent}

/-- The time of an entry lies in the calendar, and its numbers fit their words. -/
structure IsValid (e : RunEvent) : Prop where
  time : e.time.IsValid
  attempt : ∀ n ∈ e.attempt, n < Word.bound 32
  durationMs : ∀ n ∈ e.durationMs, n < Word.bound 64

/-- The fields of an entry are read from the texts that they are written as. -/
theorem IsValid.readsBack (h : e.IsValid) : ∀ p ∈ e.pairs, p.2.ReadsBack := by
  have hstring := Value.readsBack_string
  have hattempt : ∀ n ∈ e.attempt, (Value.nat n).ReadsBack := fun n hn =>
    Value.readsBack_nat ((h.attempt n hn).trans (by decide))
  have hduration : (Value.ofOption (e.durationMs.map .nat)).ReadsBack :=
    Value.readsBack_ofOption fun n hn => Value.readsBack_nat (h.durationMs n hn)
  have hstep : (Value.ofOption (e.step.map .string)).ReadsBack :=
    Value.readsBack_ofOption fun s _ => hstring s
  have herror : (Value.ofOption (e.error.map .string)).ReadsBack :=
    Value.readsBack_ofOption fun s _ => hstring s
  unfold pairs
  cases ha : e.attempt with
  | none => simp [hstring, hduration, hstep, herror]
  | some n => simp [hstring, hduration, hstep, herror, hattempt n ha]

theorem names_pairs (e : RunEvent) :
    (e.pairs.map (·.1)).Nodup ∧ ∀ p ∈ e.pairs, p.1 ∈ fieldNames := by
  unfold pairs
  cases e.attempt with
  | none => exact ⟨by simp, by simp [fieldNames]⟩
  | some n => exact ⟨by simp, by simp [fieldNames]⟩

/-- An attempt is left out where there is none. -/
theorem optional_attempt (h : ∀ n ∈ e.attempt, n < Word.bound 32) :
    (Record.ofValues e.pairs).optional "attempt" (Node.asNat (Word.bound 32)) = some e.attempt := by
  rw [Record.optional, Record.defaulted]
  cases hattempt : e.attempt with
  | none =>
    rw [Record.field?_ofValues_of_notMem (by simp [pairs, hattempt])]
  | some n =>
    rw [Record.field?_ofValues (names_pairs e).1 (v := .nat n) (by simp [pairs, hattempt])]
    exact Node.asOptional_ofValue_nat (h n hattempt)

/-- An entry is read from its fields. -/
theorem IsValid.ofNode?_pairs (h : e.IsValid) :
    ofNode? (.map (e.pairs.map fun p => (.string p.1, Node.ofValue p.2))) = some e := by
  obtain ⟨hnodup, hnames⟩ := names_pairs e
  have hkind : RunEventKind.names.lookup e.kind.name = some e.kind := by cases e.kind <;> decide
  have hstatus : StepStatus.names.lookup e.status.name = some e.status := by
    cases e.status <;> decide
  have hstring : ∀ {o : Option String}, ∀ s ∈ o,
      (Node.ofValue (.string s)).asOptional Node.asString = some (some s) :=
    fun s _ => Node.asOptional_ofValue_string s
  rw [ofNode?, Record.read_ofValues hnames hnodup]
  simp only [Option.bind_eq_bind, Option.bind_some, Option.pure_def]
  rw [Record.required_bind hnodup (s := e.id.text) (by simp [pairs]), Uuid.parse?_text,
    Option.bind_some,
    Record.required_bind hnodup (s := e.time.zuluText) (by simp [pairs]),
    Instant.ofEvent?_zuluText h.time, Option.bind_some,
    Record.required_bind hnodup (s := e.run.text) (by simp [pairs]), Uuid.parse?_text,
    Option.bind_some,
    Record.nullable_ofOption hnodup (o := e.step) (by simp [pairs]) hstring, Option.bind_some,
    Record.required_choice hnodup (s := e.kind.name) (by simp [pairs]), hkind, Option.bind_some,
    Record.required_string hnodup (s := e.key) (by simp [pairs]), Option.bind_some,
    Record.required_string hnodup (s := e.summary) (by simp [pairs]), Option.bind_some,
    Record.required_choice hnodup (s := e.status.name) (by simp [pairs]), hstatus, Option.bind_some,
    optional_attempt h.attempt, Option.bind_some,
    Record.nullable_ofOption hnodup (o := e.durationMs) (by simp [pairs])
      fun n hn => Node.asOptional_ofValue_nat (h.durationMs n hn), Option.bind_some,
    Record.nullable_ofOption hnodup (o := e.error) (by simp [pairs]) hstring, Option.bind_some]

end RunEvent

/-! ## Lines -/

namespace Journal

variable {e : RunEvent} {events : List RunEvent}

theorem toList_line (e : RunEvent) :
    e.line.toList = '\x7b' :: ((Value.printFields e.pairs).toList ++ ['\x7d']) := by
  simp [RunEvent.line]

/-- An entry is read from its line. -/
theorem eventOfLine?_line (h : e.IsValid) : eventOfLine? e.line.toList = some e := by
  have hne : e.pairs ≠ [] := by simp [RunEvent.pairs]
  have hread : Value.readMembers? e.line.toList = some e.pairs :=
    Value.readMembers?_printFields hne h.readsBack
  rw [eventOfLine?, nodeOfLine?, hread]
  exact h.ofNode?_pairs

theorem lineFeed_notMem_line (h : e.IsValid) : '\n' ∉ e.line.toList := by
  simp [toList_line, Value.lineFeed_notMem_printFields h.readsBack]

/-- A line that ends is the first of the lines, and is not touched when it does not end in a
carriage return. -/
theorem lines_append_cons {line : List Char} (hline : '\n' ∉ line)
    (hlast : line.getLast? ≠ some '\r') (rest : List Char) :
    lines (line ++ '\n' :: rest) = line :: lines rest := by
  have hne := Text.pieces_ne_nil '\n' rest
  simp only [lines, Text.pieces_append_cons hline, List.getLast?_cons_of_ne_nil hne]
  split
  · rw [List.dropLast_cons_of_ne_nil hne, List.map_cons, if_neg hlast]
  · rw [List.map_cons, if_neg hlast]

/-- The text of a journal with some entries. -/
def textOf (events : List RunEvent) : List Char := events.flatMap fun e => e.line.toList ++ ['\n']

theorem lines_textOf (h : ∀ e ∈ events, e.IsValid) :
    lines (textOf events) = events.map fun e => e.line.toList := by
  induction events with
  | nil => rfl
  | cons e rest ih =>
    obtain ⟨he, hrest⟩ := List.forall_mem_cons.1 h
    have htext : textOf (e :: rest) = e.line.toList ++ '\n' :: textOf rest := by simp [textOf]
    have hlast : e.line.toList.getLast? ≠ some '\r' := by
      rw [toList_line, ← List.cons_append, List.getLast?_concat]
      decide
    rw [htext, lines_append_cons (lineFeed_notMem_line he) hlast, ih hrest, List.map_cons]

/-- A journal is read when every line that is not blank is an entry, as the entries of these
lines. -/
theorem replayLines_eq_ok_iff {number : Nat} {lines : List (List Char)} :
    replayLines number lines = .ok events ↔
      List.Forall₂ (fun line e => eventOfLine? line = some e)
        (lines.filter fun line => !(Text.trim line).isEmpty) events := by
  induction lines generalizing number events with
  | nil =>
    rw [replayLines, List.filter_nil, List.forall₂_nil_left_iff, Except.ok.injEq, eq_comm]
  | cons line rest ih =>
    rw [replayLines]
    by_cases hblank : (Text.trim line).isEmpty = true
    · rw [if_pos hblank, List.filter_cons_of_neg (by simpa using hblank), ih]
    · rw [if_neg hblank, List.filter_cons_of_pos (by simpa using hblank)]
      cases hline : eventOfLine? line with
      | none => simp [List.forall₂_cons_left_iff, hline]
      | some e =>
        simp only [Fallible.map_eq_ok_iff, ih, List.forall₂_cons_left_iff, hline]
        constructor
        · rintro ⟨more, hmore, rfl⟩
          exact ⟨e, more, rfl, hmore, rfl⟩
        · rintro ⟨_, more, ⟨⟩, hmore, rfl⟩
          exact ⟨more, hmore, rfl⟩

theorem not_isEmpty_trim_line (e : RunEvent) : (!(Text.trim e.line.toList).isEmpty) = true := by
  have htrim : Text.trim e.line.toList = e.line.toList := by
    rw [toList_line]
    refine Text.trim_eq_self (by rintro c ⟨⟩; decide) ?_
    rw [← List.cons_append, List.getLast?_concat]
    rintro c ⟨⟩
    decide
  rw [htrim, toList_line]
  rfl

/-- Every line of a journal of entries is read as its entry. -/
theorem replay_textOf (h : ∀ e ∈ events, e.IsValid) {text : String}
    (htext : text.toList = textOf events) : replay text = .ok events := by
  have hfull : ∀ line ∈ events.map fun e => e.line.toList,
      (!(Text.trim line).isEmpty) = true :=
    List.forall_mem_map.2 fun e _ => not_isEmpty_trim_line e
  rw [replay, htext, lines_textOf h, replayLines_eq_ok_iff, List.filter_eq_self.2 hfull,
    List.forall₂_map_left_iff, List.forall₂_same]
  exact fun e he => eventOfLine?_line (h e he)

end Journal

/-! ## Stores -/

namespace EventStore

/-- What is done with a store: entries are appended to it, and it is opened once more. -/
inductive History : EventStore → List RunEvent → Prop
  | fresh : History .fresh []
  | append {s : EventStore} {events : List RunEvent} {e : RunEvent} (h : History s events)
      (he : e.IsValid) : History (s.append e) (events ++ [e])
  | reopen {s : EventStore} {events : List RunEvent} (h : History s events) :
      History s.reopen events

variable {s : EventStore} {events : List RunEvent}

/-- The file holds the lines of the entries that were appended, and nothing else. -/
theorem History.contents (h : History s events) :
    (∀ e ∈ events, e.IsValid) ∧ (s.contents.getD "").toList = Journal.textOf events := by
  induction h with
  | fresh => simp [Journal.textOf]
  | @append s events e h he ih =>
    refine ⟨List.forall_mem_append.2 ⟨ih.1, by simpa using he⟩, ?_⟩
    simp [Journal.append, ih.2, Journal.textOf]
  | reopen h ih => simpa using ih

theorem replay_eq (s : EventStore) : s.replay = Journal.replay (s.contents.getD "") := by
  unfold replay
  cases s.contents with
  | none => rfl
  | some text => rfl

/-- A store gives back the entries that were appended to it, in their order, and no journal is
read with a line left out that is not blank. -/
theorem replay_of_history (h : History s events) :
    s.replay = .ok events ∧
      s.lastEvent = .ok events.getLast? ∧
      (∀ key, ∃ completed, s.isStepCompleted key = .ok completed ∧
        (completed = true ↔ ∃ e ∈ events, e.kind = .stepCompleted ∧ e.key = key)) ∧
      ∀ text found, Journal.replay text = .ok found ↔
        List.Forall₂ (fun line e => Journal.eventOfLine? line = some e)
          ((Journal.lines text.toList).filter fun line => !(Text.trim line).isEmpty) found := by
  obtain ⟨hvalid, htext⟩ := h.contents
  have hreplay : s.replay = .ok events := by
    rw [replay_eq]
    exact Journal.replay_textOf hvalid htext
  refine ⟨hreplay, ?_, fun key => ⟨Journal.hasCompleted events key, ?_, ?_⟩,
    fun text found => Journal.replayLines_eq_ok_iff⟩
  · rw [lastEvent, hreplay]
    rfl
  · rw [isStepCompleted, hreplay]
    rfl
  · simp [Journal.hasCompleted]

/-! ### A noisy entry -/

/-- A completed step whose texts have line breaks, quotes and control characters in them. -/
def noisy : RunEvent :=
  ⟨.ofNat 7, ⟨1704067200, 5⟩, .ofNat 9, some "two\r\nlines", .stepCompleted, "a \"key\"\\",
    "\x07\t\x00", .completed, none, some 12, none⟩

theorem isValid_noisy : noisy.IsValid where
  time := ⟨rfl, .inl (by decide)⟩
  attempt := nofun
  durationMs := by
    rintro n ⟨⟩
    decide

/-- The entry is found again when the store is opened once more. -/
theorem replay_of_history_noisy :
    History (EventStore.fresh.append noisy).reopen [noisy] ∧
      (EventStore.fresh.append noisy).reopen.replay = .ok [noisy] ∧
      (EventStore.fresh.append noisy).reopen.lastEvent = .ok (some noisy) ∧
      (EventStore.fresh.append noisy).reopen.isStepCompleted "a \"key\"\\" = .ok true := by
  have hhistory : History (EventStore.fresh.append noisy).reopen [noisy] :=
    .reopen (.append .fresh isValid_noisy)
  obtain ⟨hreplay, hlast, hcompleted, -⟩ := replay_of_history hhistory
  obtain ⟨completed, hkey, hiff⟩ := hcompleted "a \"key\"\\"
  have htrue : completed = true := hiff.2 ⟨noisy, List.mem_cons_self, rfl, rfl⟩
  exact ⟨hhistory, hreplay, hlast, htrue ▸ hkey⟩

end EventStore

end PipelineEngine
