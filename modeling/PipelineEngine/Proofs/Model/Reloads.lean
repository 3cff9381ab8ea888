import Mathlib.Data.List.Chain
import PipelineEngine.Model.Snapshots
import PipelineEngine.Proofs.Fallible
import PipelineEngine.Proofs.Model.Linked

/-!
# Reloads and readers

One reload at a time goes through its steps, and readers come between any two of them.  A
reload reads the epoch and links its document under the one that follows; it puts the model in
force, and after that announces its epoch.  So there is a moment at which the model is newer
than the epoch, and none at which it is older.

* `SharedSnapshots.Step`: all that can happen next.
* `SharedSnapshots.IsCoherent`: how model, epoch and reload go together; every step keeps this.
* `SharedSnapshots.reload_of_run`, `rejects_of_run`: a reload with readers in between comes to
  what it comes to alone.
* `SharedSnapshots.history_spec`: what the readers of any history can rely on.
-/

namespace PipelineEngine

/-- Where the reload that holds the lock stands. -/
inductive ReloadPhase where
  /-- There is none. -/
  | idle
  /-- What becomes of its document under the epoch that followed when it started. -/
  | linking (result : Except (List ConfigFault) Model)
  /-- Its model is in force, and its epoch is still to be announced. -/
  | installed

/-- Snapshots with a reload and with readers. -/
structure SharedSnapshots where
  snapshots : Snapshots
  phase : ReloadPhase

/-- What a reload does or a reader sees. -/
inductive SnapshotEvent where
  | begins (d : Document)
  | rejects (faults : List ConfigFault)
  | installs (m : Model)
  | announces
  | showsModel (m : Model)
  | showsEpoch (epoch : Nat)

/-- The model that an event puts in force. -/
def SnapshotEvent.installed? : SnapshotEvent → Option Model
  | .installs m => some m
  | _ => none

namespace SharedSnapshots

/-- Snapshots with the given model in force and no reload. -/
def ofModel (m : Model) : SharedSnapshots := ⟨.ofModel m, .idle⟩

/-- What can happen next, and what comes of it. -/
inductive Step : SharedSnapshots → SnapshotEvent → SharedSnapshots → Prop
  | begins (s : Snapshots) (d : Document) :
    Step ⟨s, .idle⟩ (.begins d) ⟨s, .linking (s.candidate d)⟩
  | rejects (s : Snapshots) (faults : List ConfigFault) :
    Step ⟨s, .linking (.error faults)⟩ (.rejects faults) ⟨s, .idle⟩
  | installs (s : Snapshots) (m : Model) :
    Step ⟨s, .linking (.ok m)⟩ (.installs m) ⟨s.install m, .installed⟩
  | announces (s : Snapshots) : Step ⟨s, .installed⟩ .announces ⟨s.announce, .idle⟩
  | showsModel (s : SharedSnapshots) : Step s (.showsModel s.snapshots.current) s
  | showsEpoch (s : SharedSnapshots) : Step s (.showsEpoch s.snapshots.epoch) s

/-- What can happen one after the other. -/
inductive Run : SharedSnapshots → List SnapshotEvent → SharedSnapshots → Prop
  | nil (s : SharedSnapshots) : Run s [] s
  | cons {s s₁ s' : SharedSnapshots} {event : SnapshotEvent} {rest : List SnapshotEvent}
      (hstep : s.Step event s₁) (hrest : Run s₁ rest s') : Run s (event :: rest) s'

/-- The models that some events put in force, in order. -/
def installed (events : List SnapshotEvent) : List Model := events.filterMap SnapshotEvent.installed?

variable {s s₁ s' : SharedSnapshots} {event : SnapshotEvent} {past later events : List SnapshotEvent}
  {m : Model}

theorem run_cons_iff :
    Run s (event :: events) s' ↔ ∃ s₁, s.Step event s₁ ∧ Run s₁ events s' := by
  constructor
  · rintro (_ | ⟨hstep, hrest⟩)
    exact ⟨_, hstep, hrest⟩
  · rintro ⟨s₁, hstep, hrest⟩
    exact .cons hstep hrest

theorem run_append_iff :
    Run s (past ++ later) s' ↔ ∃ s₁, Run s past s₁ ∧ Run s₁ later s' := by
  induction past generalizing s with
  | nil =>
    constructor
    · intro h
      exact ⟨s, .nil s, h⟩
    · rintro ⟨_, ⟨⟩, h⟩
      exact h
  | cons event rest ih =>
    simp only [List.cons_append, run_cons_iff, ih]
    constructor
    · rintro ⟨s₂, hstep, s₁, hrest, hlater⟩
      exact ⟨s₁, ⟨s₂, hstep, hrest⟩, hlater⟩
    · rintro ⟨s₁, ⟨s₂, hstep, hrest⟩, hlater⟩
      exact ⟨s₂, hstep, s₁, hrest, hlater⟩

/-! ## The model in force -/

theorem current_of_step (h : s.Step event s₁) :
    s₁.snapshots.current = event.installed?.getD s.snapshots.current := by
  cases h <;> rfl

/-- The model in force is the one that was put in force last. -/
theorem current_of_run (h : Run s events s') :
    s'.snapshots.current = (installed events).getLastD s.snapshots.current := by
  induction h with
  | nil s => rfl
  | @cons s s₁ s' event rest hstep hrest ih =>
    rw [ih, current_of_step hstep, installed, installed, List.filterMap_cons]
    cases event.installed? with
    | none => rfl
    | some m => rw [List.getLastD_cons, Option.getD_some]

/-! ## Epochs -/

/-- The epoch is that of the model in force, but while a new model waits for its epoch to be
announced.  This is then the next one, as it is for a model that is about to be put in force. -/
structure IsCoherent (s : SharedSnapshots) : Prop where
  epoch_le : s.snapshots.epoch ≤ Snapshots.maxEpoch
  idle : s.phase = .idle → s.snapshots.current.epoch = s.snapshots.epoch
  linking : ∀ result, s.phase = .linking result →
    s.snapshots.current.epoch = s.snapshots.epoch ∧
      ∀ m, result = .ok m → m.epoch = s.snapshots.nextEpoch
  installed : s.phase = .installed → s.snapshots.current.epoch = s.snapshots.nextEpoch

theorem isCoherent_ofModel (h : m.epoch ≤ Snapshots.maxEpoch) : (ofModel m).IsCoherent :=
  ⟨h, fun _ => rfl, nofun, nofun⟩

theorem epoch_of_candidate {s : Snapshots} {d : Document} (h : s.candidate d = .ok m) :
    m.epoch = s.nextEpoch := by
  rw [← (Document.link_eq_ok_iff.1 h).2]
  rfl

/-- The next epoch is greater than the last one, but for the greatest, which is repeated. -/
theorem epoch_le_nextEpoch {s : Snapshots} (h : s.epoch ≤ Snapshots.maxEpoch) :
    s.epoch ≤ s.nextEpoch ∧ s.nextEpoch ≤ Snapshots.maxEpoch ∧
      (s.epoch < Snapshots.maxEpoch → s.nextEpoch = s.epoch + 1) := by
  unfold Snapshots.nextEpoch
  omega

theorem IsCoherent.step (hs : s.IsCoherent) (h : s.Step event s₁) : s₁.IsCoherent := by
  cases h with
  | begins s d =>
    refine ⟨hs.epoch_le, nofun, ?_, nofun⟩
    rintro result ⟨⟩
    exact ⟨hs.idle rfl, fun m hm => epoch_of_candidate hm⟩
  | rejects s faults => exact ⟨hs.epoch_le, fun _ => (hs.linking _ rfl).1, nofun, nofun⟩
  | installs s m => exact ⟨hs.epoch_le, nofun, nofun, fun _ => (hs.linking _ rfl).2 m rfl⟩
  | announces s =>
    refine ⟨?_, fun _ => rfl, nofun, nofun⟩
    show s.current.epoch ≤ _
    rw [hs.installed rfl]
    exact (epoch_le_nextEpoch hs.epoch_le).2.1
  | showsModel s => exact hs
  | showsEpoch s => exact hs

theorem IsCoherent.run (hs : s.IsCoherent) (h : Run s events s') : s'.IsCoherent := by
  induction h with
  | nil s => exact hs
  | cons hstep _ ih => exact ih (hs.step hstep)

/-- The epoch that is announced is never ahead of the model in force. -/
theorem IsCoherent.epoch_le_current (hs : s.IsCoherent) :
    s.snapshots.epoch ≤ s.snapshots.current.epoch ∧
      s.snapshots.current.epoch ≤ Snapshots.maxEpoch := by
  have hnext := epoch_le_nextEpoch hs.epoch_le
  have hbound := hs.epoch_le
  cases hphase : s.phase with
  | idle =>
    have hsame := hs.idle hphase
    omega
  | linking result =>
    have hsame := (hs.linking result hphase).1
    omega
  | installed =>
    have hsame := hs.installed hphase
    omega

/-- A model that is put in force has the epoch after that of the one before it. -/
theorem IsCoherent.epoch_of_installs (hs : s.IsCoherent) (h : s.Step (.installs m) s₁) :
    s.snapshots.current.epoch ≤ m.epoch ∧
      (s.snapshots.current.epoch < Snapshots.maxEpoch → m.epoch = s.snapshots.current.epoch + 1) := by
  cases h with
  | installs s m =>
    obtain ⟨hsame, hnext⟩ := hs.linking _ rfl
    rw [hnext m rfl, hsame]
    exact ⟨(epoch_le_nextEpoch hs.epoch_le).1, (epoch_le_nextEpoch hs.epoch_le).2.2⟩

/-- The model in force never goes back to an earlier epoch. -/
theorem IsCoherent.current_mono (hs : s.IsCoherent) (h : Run s events s') :
    s.snapshots.current.epoch ≤ s'.snapshots.current.epoch := by
  induction h with
  | nil s => exact le_rfl
  | @cons s s₁ s' event rest hstep hrest ih =>
    refine le_trans ?_ (ih (hs.step hstep))
    rw [current_of_step hstep]
    cases event with
    | installs m => exact (hs.epoch_of_installs hstep).1
    | _ => exact le_rfl

/-- The epochs of the models that are put in force go up by one each, below the greatest. -/
theorem IsCoherent.isChain_epochs (hs : s.IsCoherent) (h : Run s events s')
    (hbound : s.snapshots.current.epoch + (SharedSnapshots.installed events).length ≤
      Snapshots.maxEpoch) :
    ((s.snapshots.current :: SharedSnapshots.installed events).map (·.epoch)).IsChain
      (fun a b => b = a + 1) := by
  induction h with
  | nil s => exact List.IsChain.singleton _
  | @cons s s₁ s' event rest hstep hrest ih =>
    have hcurrent := current_of_step hstep
    have hrest := ih (hs.step hstep)
    rw [SharedSnapshots.installed, List.filterMap_cons] at hbound ⊢
    cases event with
    | installs m =>
      have hepoch := (hs.epoch_of_installs hstep).2
      simp only [SnapshotEvent.installed?, Option.getD_some, List.length_cons] at hcurrent hbound ⊢
      rw [hcurrent] at hrest
      have hnext : m.epoch = s.snapshots.current.epoch + 1 := hepoch (by omega)
      rw [List.map_cons, List.map_cons, List.isChain_cons_cons]
      refine ⟨hnext, hrest ?_⟩
      rw [SharedSnapshots.installed]
      omega
    | _ =>
      simp only [SnapshotEvent.installed?, Option.getD_none] at hcurrent hbound ⊢
      rw [hcurrent] at hrest
      exact hrest hbound

/-! ## Whole reloads -/

/-- Without a reload that begins, nothing but readers comes when there is none. -/
theorem eq_of_run_idle (h : Run s events s') (hidle : s.phase = .idle)
    (hnone : ∀ d, .begins d ∉ events) : s' = s := by
  induction h with
  | nil s => rfl
  | cons hstep _ ih =>
    cases hstep with
    | begins s d => exact absurd List.mem_cons_self (hnone d)
    | rejects s faults => cases hidle
    | installs s m => cases hidle
    | announces s => cases hidle
    | showsModel s => exact ih hidle fun d hd => hnone d (List.mem_cons_of_mem _ hd)
    | showsEpoch s => exact ih hidle fun d hd => hnone d (List.mem_cons_of_mem _ hd)

/-- A reload that has put its model in force ends with the announcement of its epoch, whatever
readers come before and after. -/
theorem phase_of_run_installed (h : Run s events s') (hinstalled : s.phase = .installed)
    (hnone : ∀ d, .begins d ∉ events) :
    s' = s ∨ s' = ⟨s.snapshots.announce, .idle⟩ := by
  induction h with
  | nil s => exact Or.inl rfl
  | cons hstep hrest ih =>
    have hnone' := fun d hd => hnone d (List.mem_cons_of_mem _ hd)
    cases hstep with
    | begins s d => exact absurd List.mem_cons_self (hnone d)
    | rejects s faults => cases hinstalled
    | installs s m => cases hinstalled
    | announces s => exact Or.inr (eq_of_run_idle hrest rfl hnone')
    | showsModel s => exact ih hinstalled hnone'
    | showsEpoch s => exact ih hinstalled hnone'

/-- All that can come of a reload that is linking its document, before the next one begins. -/
theorem cases_of_run_linking {result : Except (List ConfigFault) Model} (h : Run s events s')
    (hlinking : s.phase = .linking result) (hnone : ∀ d, .begins d ∉ events) :
    s' = s ∨ (∃ faults, result = .error faults ∧ s' = ⟨s.snapshots, .idle⟩) ∨
      ∃ m, result = .ok m ∧ (s' = ⟨s.snapshots.install m, .installed⟩ ∨
        s' = ⟨(s.snapshots.install m).announce, .idle⟩) := by
  induction h with
  | nil s => exact Or.inl rfl
  | cons hstep hrest ih =>
    have hnone' := fun d hd => hnone d (List.mem_cons_of_mem _ hd)
    cases hstep with
    | begins s d => exact absurd List.mem_cons_self (hnone d)
    | rejects s faults =>
      cases hlinking
      exact Or.inr (Or.inl ⟨faults, rfl, eq_of_run_idle hrest rfl hnone'⟩)
    | installs s m =>
      cases hlinking
      exact Or.inr (Or.inr ⟨m, rfl, phase_of_run_installed hrest rfl hnone'⟩)
    | announces s => cases hlinking
    | showsModel s => exact ih hlinking hnone'
    | showsEpoch s => exact ih hlinking hnone'

/-- A reload that begins and ends with readers in between comes to what it comes to alone. -/
theorem reload_of_run {d : Document} (h : Run s (.begins d :: events) s')
    (hnone : ∀ d', .begins d' ∉ events) (hidle : s'.phase = .idle) :
    s.snapshots.reload d = .ok s'.snapshots ∨
      ∃ faults, s.snapshots.reload d = .error faults ∧ s' = s := by
  obtain ⟨s₁, hstep, hrest⟩ := run_cons_iff.1 h
  cases hstep with
  | begins s d =>
    rw [Snapshots.reload]
    rcases cases_of_run_linking hrest rfl hnone with rfl | ⟨faults, hresult, rfl⟩ |
      ⟨m, hresult, rfl | rfl⟩
    · cases hidle
    · exact Or.inr ⟨faults, by rw [hresult]; rfl, rfl⟩
    · cases hidle
    · exact Or.inl (by rw [hresult]; rfl)

/-- A reload that is rejected changes nothing, whatever readers come in between. -/
theorem rejects_of_run {d : Document} {faults : List ConfigFault}
    (h : Run s (.begins d :: (events ++ [.rejects faults])) s') (hnone : ∀ d', .begins d' ∉ events) :
    s.snapshots.reload d = .error faults ∧ s' = s := by
  obtain ⟨s₁, hstep, hrest⟩ := run_cons_iff.1 h
  obtain ⟨s₂, hbetween, hlast⟩ := run_append_iff.1 hrest
  obtain ⟨s₃, hrejects, hnil⟩ := run_cons_iff.1 hlast
  cases hnil
  cases hstep with
  | begins s d =>
    -- Only a reload that is still linking can be rejected, and it has changed nothing so far.
    have hcases := cases_of_run_linking hbetween rfl hnone
    generalize hresult : s.candidate d = result at hcases
    cases hrejects with
    | rejects s₂ faults =>
      rcases hcases with heq | ⟨_, _, heq⟩ | ⟨_, _, heq | heq⟩ <;> cases heq
      exact ⟨by rw [Snapshots.reload, hresult]; rfl, rfl⟩

/-! ## Histories -/

/-- Any history of reloads and readers.  A reload that is rejected leaves everything as it was.
The model that a reader sees is the one put in force last, or else the first.  The epochs of the
models put in force go up as long as there are epochs left.  The epoch that a reader sees is
never greater than that of a model seen later. -/
theorem history_spec (hword : m.epoch ≤ Snapshots.maxEpoch) (h : Run (ofModel m) events s) :
    (∀ past d between faults later,
        events = past ++ (.begins d :: (between ++ [.rejects faults])) ++ later →
        (∀ d', .begins d' ∉ between) →
        ∃ before after, Run (ofModel m) past before ∧
          Run before (.begins d :: (between ++ [.rejects faults])) after ∧ Run after later s ∧
          after.snapshots.current = before.snapshots.current ∧
          after.snapshots.epoch = before.snapshots.epoch) ∧
      (∀ past seen later, events = past ++ .showsModel seen :: later →
        seen = (installed past).getLastD m) ∧
      (m.epoch + (installed events).length ≤ Snapshots.maxEpoch →
        ((m :: installed events).map (·.epoch)).Pairwise (· < ·)) ∧
      ∀ past epoch between seen later,
        events = past ++ .showsEpoch epoch :: (between ++ .showsModel seen :: later) →
        epoch ≤ seen.epoch := by
  have hcoherent := isCoherent_ofModel hword
  refine ⟨?_, ?_, ?_, ?_⟩
  · rintro past d between faults later rfl hnone
    obtain ⟨after, hupto, hlater⟩ := run_append_iff.1 h
    obtain ⟨before, hpast, hreload⟩ := run_append_iff.1 hupto
    have hsame := (rejects_of_run hreload hnone).2
    exact ⟨before, after, hpast, hreload, hlater, by rw [hsame], by rw [hsame]⟩
  · rintro past seen later rfl
    obtain ⟨s₁, hpast, hrest⟩ := run_append_iff.1 h
    obtain ⟨s₂, hstep, -⟩ := run_cons_iff.1 hrest
    cases hstep
    exact current_of_run hpast
  · intro hbound
    have hchain := hcoherent.isChain_epochs h hbound
    refine List.isChain_iff_pairwise.1 (hchain.imp fun a b hab => ?_)
    omega
  · rintro past epoch between seen later rfl
    obtain ⟨s₁, hpast, hrest⟩ := run_append_iff.1 h
    obtain ⟨s₂, hepoch, hrest⟩ := run_cons_iff.1 hrest
    obtain ⟨s₃, hbetween, hrest⟩ := run_append_iff.1 hrest
    obtain ⟨s₄, hmodel, -⟩ := run_cons_iff.1 hrest
    cases hepoch
    cases hmodel
    have hs₁ := hcoherent.run hpast
    exact hs₁.epoch_le_current.1.trans (hs₁.current_mono hbetween)

/-- A document with pipelines of the given names. -/
def naming (pipelines : List String) : Document :=
  ⟨[], [], [], ⟨.empty, none, none, pipelines.map fun name => ⟨name, [], none⟩, []⟩, []⟩

/-- A reload with readers between its two last steps, and one that is rejected. -/
def accepting : List SnapshotEvent :=
  [.begins (naming ["p", "q"]), .installs ((naming ["p", "q"]).linked 1),
    .showsModel ((naming ["p", "q"]).linked 1), .showsEpoch 0, .announces,
    .begins (naming ["p", "p"]), .showsEpoch 1, .rejects (naming ["p", "p"]).faults,
    .showsModel ((naming ["p", "q"]).linked 1)]

theorem run_accepting :
    Run (ofModel ((naming ["p"]).linked 0)) accepting (ofModel ((naming ["p", "q"]).linked 1)) :=
  .cons (.begins _ _) <| .cons (.installs _ _) <| .cons (.showsModel _) <| .cons (.showsEpoch _) <|
    .cons (.announces _) <| .cons (.begins _ _) <| .cons (.showsEpoch _) <| .cons (.rejects _ _) <|
    .cons (.showsModel _) <| .nil _

theorem history_spec_accepting :
    ((naming ["p"]).linked 0).epoch ≤ Snapshots.maxEpoch ∧
      Run (ofModel ((naming ["p"]).linked 0)) accepting (ofModel ((naming ["p", "q"]).linked 1)) ∧
      (0 : Nat) ≤ ((naming ["p", "q"]).linked 1).epoch ∧
      ((naming ["p"]).linked 0).epoch < ((naming ["p", "q"]).linked 1).epoch := by
  have hword : ((naming ["p"]).linked 0).epoch ≤ Snapshots.maxEpoch := Nat.zero_le _
  obtain ⟨-, -, hepochs, hseen⟩ := history_spec hword run_accepting
  have hpairwise := hepochs (by decide)
  refine ⟨hword, run_accepting, ?_, ?_⟩
  · exact hseen (accepting.take 3) 0 (accepting.drop 4 |>.take 4) _ [] rfl
  · exact (List.pairwise_cons.1 hpairwise).1 _ List.mem_cons_self

end SharedSnapshots

end PipelineEngine
