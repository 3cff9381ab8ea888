import Mathlib.Data.List.Basic
import PipelineEngine.Identifier.Snowflake

/-!
# The snowflakes that sources give out

A source writes its milliseconds, its node and its sequence number side by side into one
number, the node in the middle.  Whatever the clock shows, a step makes the milliseconds
greater or else keeps them and makes the sequence number greater, so the number grows; and the
node in the middle keeps the numbers of two sources apart.

* `SnowflakeSource.ofInt_last`: a snowflake is the word of its three parts.
* `SnowflakeSource.number_lt_step`: one step makes the number greater.
* `SnowflakeSource.issued_spec`: what two sources give out, however their clocks go.
-/

namespace PipelineEngine.SnowflakeSource

variable {s s' : SnowflakeSource} {t : Instant} {now : Int}

/-! ## One snowflake -/

/-- The number that a source gave out last, if no bits of it were lost. -/
def number (s : SnowflakeSource) : Nat :=
  (s.lastMs * Word.bound Snowflake.nodeBits + s.node) * Word.bound Snowflake.sequenceBits + s.sequence

theorem last_eq_bmod (s : SnowflakeSource) : s.last = Int.bmod s.number (Word.bound 64) := by
  simp only [last, number, Int.natCast_add, Int.natCast_mul]

/-- The three parts of a snowflake stand side by side, so they can be put together bit by
bit. -/
theorem number_eq_or (s : SnowflakeSource) :
    s.number = s.lastMs <<< 22 ||| s.node <<< 12 ||| s.sequence := by
  have hsequence : s.sequence < 2 ^ 12 := s.sequence_lt
  have hnode : s.node <<< 12 < 2 ^ 22 := by
    have hnode : s.node < 2 ^ 10 := s.node_lt
    rw [Nat.shiftLeft_eq]
    omega
  have hupper : s.lastMs <<< 22 ||| s.node <<< 12 = (s.lastMs <<< 10 + s.node) <<< 12 := by
    rw [← Nat.shiftLeft_add_eq_or_of_lt hnode]
    simp only [Nat.shiftLeft_eq]
    omega
  rw [hupper, ← Nat.shiftLeft_add_eq_or_of_lt hsequence]
  simp only [Nat.shiftLeft_eq]
  rfl

/-- A snowflake is the word that holds the milliseconds from bit 22 on, the node from bit 12 on
and the sequence number below. -/
theorem ofInt_last (s : SnowflakeSource) :
    BitVec.ofInt 64 s.last =
      BitVec.ofNat 64 (s.lastMs <<< 22) ||| BitVec.ofNat 64 (s.node <<< 12) |||
        BitVec.ofNat 64 s.sequence := by
  have hbound : Word.bound 64 = 2 ^ 64 := rfl
  rw [← BitVec.ofNat_or, ← BitVec.ofNat_or, ← number_eq_or, last_eq_bmod, hbound]
  refine BitVec.eq_of_toNat_eq ?_
  rw [BitVec.toNat_ofInt, BitVec.toNat_ofNat, Int.bmod_emod, ← Int.natCast_emod, Int.toNat_natCast]

/-- Bits 12 to 21 of a number. -/
def nodeOf (n : Int) : Nat := ((BitVec.ofInt 64 n).extractLsb 21 12).toNat

/-- Bits 12 to 21 of a snowflake are the node, even where higher ones were lost. -/
theorem nodeOf_last (s : SnowflakeSource) : nodeOf s.last = s.node := by
  have hsequence : s.sequence < 4096 := s.sequence_lt
  have hnode : s.node < 1024 := s.node_lt
  have hnumber : s.number = (s.lastMs * 1024 + s.node) * 4096 + s.sequence := rfl
  have hword : (BitVec.ofInt 64 s.last).toNat = s.number % 2 ^ 64 := by
    rw [ofInt_last, ← BitVec.ofNat_or, ← BitVec.ofNat_or, ← number_eq_or, BitVec.toNat_ofNat]
  rw [nodeOf, BitVec.extractLsb_toNat, hword, Nat.shiftRight_eq_div_pow]
  omega

/-- As long as 41 bits hold the milliseconds, no bits are lost. -/
theorem last_eq_number (h : s.lastMs < Word.bound 41) : s.last = s.number := by
  have hsequence : s.sequence < 4096 := s.sequence_lt
  have hnode : s.node < 1024 := s.node_lt
  have hms : s.lastMs < 2199023255552 := h
  have hnumber : s.number = (s.lastMs * 1024 + s.node) * 4096 + s.sequence := rfl
  have hbound : Word.bound 64 = 18446744073709551616 := rfl
  rw [last_eq_bmod]
  exact Int.bmod_eq_of_le (by omega) (by omega)

/-! ## One step -/

@[simp] theorem node_step : (s.step now).node = s.node := by
  unfold step
  split
  · split <;> rfl
  · rfl

/-- Whatever the clock shows, the number grows: within a millisecond, into the next one when
the sequence is full, and to a later one when the clock shows it. -/
theorem number_lt_step : s.number < (s.step now).number := by
  have hsequence : s.sequence < 4096 := s.sequence_lt
  have hnode : s.node < 1024 := s.node_lt
  have hbits : Word.bound Snowflake.nodeBits = 1024 := rfl
  have hbits' : Word.bound Snowflake.sequenceBits = 4096 := rfl
  unfold step number
  split
  · split
    · simp only
      omega
    · simp only [hbits, hbits']
      omega
  · simp only [hbits, hbits']
    omega

/-! ## A run of steps -/

theorem next_eq (s : SnowflakeSource) (t : Instant) :
    s.next t = ((s.step (clock t)).last, s.step (clock t)) :=
  rfl

/-- What a source gives out, one snowflake at each of some readings of its clock, and the source
after each. -/
def issued : List Instant → SnowflakeSource → List (Int × SnowflakeSource)
  | [], _ => []
  | t :: rest, s => s.next t :: issued rest (s.next t).2

/-- Snowflakes that are given out at one instant. -/
theorem take_eq_issued (t : Instant) (n : Nat) (s : SnowflakeSource) :
    take t n s = (issued (List.replicate n t) s).map (·.1) := by
  induction n generalizing s with
  | zero => rfl
  | succ n ih =>
    rw [take, next_eq, List.replicate_succ, issued, next_eq, List.map_cons, ← ih]

/-- The snowflakes are those of the sources after them, which have the same node. -/
theorem eq_last_of_mem_issued {clock : List Instant} {entry : Int × SnowflakeSource}
    (h : entry ∈ issued clock s) : entry.1 = entry.2.last ∧ entry.2.node = s.node := by
  induction clock generalizing s with
  | nil => cases h
  | cons t rest ih =>
    rcases List.mem_cons.1 h with rfl | h
    · simp only [next_eq, node_step, and_self]
    · obtain ⟨hlast, hnode⟩ := ih h
      rw [next_eq, node_step] at hnode
      exact ⟨hlast, hnode⟩

/-- The numbers of the sources grow along a run. -/
theorem pairwise_number_issued (clock : List Instant) (s : SnowflakeSource) :
    ((s.number :: (issued clock s).map (·.2.number)).Pairwise (· < ·)) := by
  induction clock generalizing s with
  | nil => exact List.pairwise_singleton _ _
  | cons t rest ih =>
    have hstep : s.number < (s.next t).2.number := number_lt_step
    have hrest := ih (s.next t).2
    refine List.pairwise_cons.2 ⟨?_, hrest⟩
    intro n hn
    rcases List.mem_cons.1 hn with rfl | hn
    · exact hstep
    · exact Nat.lt_trans hstep ((List.pairwise_cons.1 hrest).1 n hn)

/-- What the snowflakes of a node are to be: as many as were asked for, each greater than those
before it, none of them negative, and with the node in bits 12 to 21. -/
structure Orderly (node count : Nat) (snowflakes : List Int) : Prop where
  length_eq : snowflakes.length = count
  increasing : snowflakes.Pairwise (· < ·)
  nonneg : ∀ n ∈ snowflakes, 0 ≤ n
  node : ∀ n ∈ snowflakes, nodeOf n = node

theorem nodeOf_of_mem_issued {clock : List Instant} {n : Int}
    (h : n ∈ (issued clock s).map (·.1)) : nodeOf n = s.node := by
  obtain ⟨entry, hentry, rfl⟩ := List.mem_map.1 h
  obtain ⟨hlast, hnode⟩ := eq_last_of_mem_issued hentry
  rw [hlast, nodeOf_last, hnode]

theorem orderly_issued (clock : List Instant)
    (hfits : ∀ entry ∈ issued clock s, entry.2.lastMs < Word.bound 41) :
    Orderly s.node clock.length ((issued clock s).map (·.1)) := by
  have hnumber : ∀ entry ∈ issued clock s, entry.1 = entry.2.number := fun entry hentry => by
    rw [(eq_last_of_mem_issued hentry).1, last_eq_number (hfits entry hentry)]
  have hlength : (issued clock s).length = clock.length := by
    clear hfits hnumber
    induction clock generalizing s with
    | nil => rfl
    | cons t rest ih => simp only [issued, List.length_cons, ih]
  refine ⟨by rw [List.length_map, hlength], ?_, ?_, fun n => nodeOf_of_mem_issued⟩
  · have hgrow := (List.pairwise_cons.1 (pairwise_number_issued clock s)).2
    rw [List.pairwise_map] at hgrow ⊢
    refine hgrow.imp_of_mem fun ha hb hlt => ?_
    rw [hnumber _ ha, hnumber _ hb]
    exact_mod_cast hlt
  · simp only [List.forall_mem_map]
    intro entry hentry
    rw [hnumber entry hentry]
    exact Int.natCast_nonneg _

theorem node_of_ofNode {node : Nat} (h : ofNode node = .ok s) : s.node = node := by
  unfold ofNode at h
  split at h
  · cases h
    rfl
  · cases h

/-- Two sources whose clocks show anything, as long as 41 bits hold their milliseconds: the
snowflakes of each are in order, and those of different nodes are different. -/
theorem issued_spec {node node' : Nat} (h : ofNode node = .ok s) (h' : ofNode node' = .ok s')
    (clock clock' : List Instant)
    (hfits : ∀ entry ∈ issued clock s, entry.2.lastMs < Word.bound 41)
    (hfits' : ∀ entry ∈ issued clock' s', entry.2.lastMs < Word.bound 41) :
    Orderly node clock.length ((issued clock s).map (·.1)) ∧
      Orderly node' clock'.length ((issued clock' s').map (·.1)) ∧
        (node ≠ node' →
          ((issued clock s).map (·.1)).Disjoint ((issued clock' s').map (·.1))) := by
  obtain rfl := node_of_ofNode h
  obtain rfl := node_of_ofNode h'
  refine ⟨orderly_issued clock hfits, orderly_issued clock' hfits', fun hne n hn hn' => hne ?_⟩
  rw [← nodeOf_of_mem_issued hn, nodeOf_of_mem_issued hn']

/-! ### A clock that is set back -/

/-- A clock that stands still, goes back to long before 2020 and comes forward again. -/
def wandering : List Instant :=
  [⟨1704067200, 0⟩, ⟨1704067200, 0⟩, ⟨0, 0⟩, ⟨1704067199, 999999999⟩, ⟨1704067200, 1000000⟩]

theorem zero_lt_sequences : 0 < Word.bound Snowflake.sequenceBits := by decide

/-- The source of a node that has given out nothing. -/
def fresh (node : Nat) (h : node < Word.bound Snowflake.nodeBits) : SnowflakeSource :=
  { node, lastMs := 0, sequence := 0, node_lt := h, sequence_lt := zero_lt_sequences }

/-- Two nodes that see the same clock. -/
theorem issued_spec_wandering :
    ofNode 7 = .ok (fresh 7 (by decide)) ∧ ofNode 8 = .ok (fresh 8 (by decide)) ∧
      Orderly 7 5 ((issued wandering (fresh 7 (by decide))).map (·.1)) ∧
      ((issued wandering (fresh 7 (by decide))).map (·.1)).Disjoint
        ((issued wandering (fresh 8 (by decide))).map (·.1)) := by
  have hseven : ofNode 7 = .ok (fresh 7 (by decide)) := rfl
  have hother : ofNode 8 = .ok (fresh 8 (by decide)) := rfl
  obtain ⟨horderly, -, hapart⟩ :=
    issued_spec hseven hother wandering wandering (by decide) (by decide)
  exact ⟨hseven, hother, horderly, hapart (by decide)⟩

end PipelineEngine.SnowflakeSource
