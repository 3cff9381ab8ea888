/-!
# UTF-8

Reading bytes as text.  Well-formed sequences are those of the Unicode
standard: no overlong forms, no surrogates, nothing above U+10FFFF.  Each
ill-formed stretch is the longest start of a well-formed sequence, or one byte
where there is none, and is read as one `none`.  A strict reading refuses it, a
lenient reading replaces it by U+FFFD.
-/

namespace PipelineEngine.Utf8

/-- What the front of a byte list holds: a character or an ill-formed stretch,
and how many bytes it takes. -/
structure Step where
  char : Option Char
  /-- One less than the number of bytes taken. -/
  more : Nat

private def Step.bad (more : Nat) : Step := ⟨none, more⟩

/-- Whether a byte goes on with a character that an earlier byte starts. -/
def isTail (b : UInt8) : Bool := 0x80 ≤ b && b ≤ 0xBF

private def tail (b : UInt8) : Nat := b.toNat - 0x80

/-- The least and the greatest second byte after a lead byte of three or four
byte sequences. -/
private def secondRange (lead : UInt8) : UInt8 × UInt8 :=
  if lead == 0xE0 then (0xA0, 0xBF)
  else if lead == 0xED then (0x80, 0x9F)
  else if lead == 0xF0 then (0x90, 0xBF)
  else if lead == 0xF4 then (0x80, 0x8F)
  else (0x80, 0xBF)

private def isSecond (lead b : UInt8) : Bool :=
  let (low, high) := secondRange lead
  low ≤ b && b ≤ high

/-- Reads the front of a list whose first byte is `lead`. -/
def step (lead : UInt8) (rest : List UInt8) : Step :=
  if lead < 0x80 then
    ⟨some (Char.ofNat lead.toNat), 0⟩
  else if 0xC2 ≤ lead && lead ≤ 0xDF then
    match rest with
    | b :: _ =>
      if isTail b then ⟨some (Char.ofNat ((lead.toNat - 0xC0) * 64 + tail b)), 1⟩ else .bad 0
    | [] => .bad 0
  else if 0xE0 ≤ lead && lead ≤ 0xEF then
    match rest with
    | b :: c :: _ =>
      if !isSecond lead b then .bad 0
      else if !isTail c then .bad 1
      else ⟨some (Char.ofNat (((lead.toNat - 0xE0) * 64 + tail b) * 64 + tail c)), 2⟩
    | [b] => if isSecond lead b then .bad 1 else .bad 0
    | [] => .bad 0
  else if 0xF0 ≤ lead && lead ≤ 0xF4 then
    match rest with
    | b :: c :: d :: _ =>
      if !isSecond lead b then .bad 0
      else if !isTail c then .bad 1
      else if !isTail d then .bad 2
      else
        ⟨some (Char.ofNat ((((lead.toNat - 0xF0) * 64 + tail b) * 64 + tail c) * 64 + tail d)), 3⟩
    | [b, c] =>
      if !isSecond lead b then .bad 0 else if !isTail c then .bad 1 else .bad 2
    | [b] => if isSecond lead b then .bad 1 else .bad 0
    | [] => .bad 0
  else .bad 0

/-- The characters of a byte list, `none` for each ill-formed stretch. -/
def scan : List UInt8 → List (Option Char)
  | [] => []
  | lead :: rest =>
    let s := step lead rest
    s.char :: scan (rest.drop s.more)
termination_by bytes => bytes.length
decreasing_by simp only [List.length_drop, List.length_cons]; omega

/-- The text of a byte list, when all of it is well-formed. -/
def decode? (bytes : List UInt8) : Option String :=
  ((scan bytes).mapM id).map String.ofList

/-- The text of a byte list, with U+FFFD for each ill-formed stretch. -/
def decodeLossy (bytes : List UInt8) : String :=
  String.ofList ((scan bytes).map (·.getD '\uFFFD'))

/-- The bytes of a text. -/
def encode (s : String) : List UInt8 :=
  s.toList.flatMap String.utf8EncodeChar

/-- The number of bytes of a character list. -/
def size : List Char → Nat
  | [] => 0
  | c :: s => c.utf8Size + size s

@[simp] theorem size_nil : size [] = 0 := rfl

@[simp] theorem size_cons (c : Char) (s : List Char) : size (c :: s) = c.utf8Size + size s := rfl

theorem size_append (s t : List Char) : size (s ++ t) = size s + size t := by
  induction s with
  | nil => simp
  | cons c s ih => simp [ih, Nat.add_assoc]

/-! ## Reading what was written -/

section

variable {lead a b d : UInt8} {v : Nat}

private theorem between_iff (low high b : UInt8) :
    (low ≤ b && b ≤ high) = true ↔ low.toNat ≤ b.toNat ∧ b.toNat ≤ high.toNat := by
  simp [UInt8.le_iff_toNat_le]

private theorem isTail_of_toNat (h : 0x80 ≤ b.toNat ∧ b.toNat ≤ 0xBF) : isTail b = true :=
  (between_iff _ _ _).2 h

private theorem isSecond_of_toNat (h : 0x80 ≤ b.toNat ∧ b.toNat ≤ 0xBF)
    (hE0 : lead.toNat = 0xE0 → 0xA0 ≤ b.toNat) (hED : lead.toNat = 0xED → b.toNat ≤ 0x9F)
    (hF0 : lead.toNat = 0xF0 → 0x90 ≤ b.toNat) (hF4 : lead.toNat = 0xF4 → b.toNat ≤ 0x8F) :
    isSecond lead b = true := by
  simp only [isSecond, secondRange, beq_iff_eq, ← UInt8.toNat_inj]
  split
  next heq => exact (between_iff _ _ _).2 ⟨hE0 heq, h.2⟩
  next =>
    split
    next heq => exact (between_iff _ _ _).2 ⟨h.1, hED heq⟩
    next =>
      split
      next heq => exact (between_iff _ _ _).2 ⟨hF0 heq, h.2⟩
      next =>
        split
        next heq => exact (between_iff _ _ _).2 ⟨h.1, hF4 heq⟩
        next => exact (between_iff _ _ _).2 h

private theorem step_one (hv : v < 0x80) (hlead : lead.toNat = v) (rest : List UInt8) :
    step lead rest = ⟨some (Char.ofNat v), 0⟩ := by
  have h1 : lead < 0x80 := by simpa [UInt8.lt_iff_toNat_lt, hlead] using hv
  rw [step.eq_def, if_pos h1, hlead]

private theorem tail_of_toNat (h : a.toNat = v + 0x80) : tail a = v := by
  unfold tail
  omega

private theorem step_two (hv : 0x80 ≤ v ∧ v < 0x800) (hlead : lead.toNat = v / 64 + 0xC0)
    (ha : a.toNat = v % 64 + 0x80) (rest : List UInt8) :
    step lead (a :: rest) = ⟨some (Char.ofNat v), 1⟩ := by
  have h1 : ¬ lead < 0x80 := by
    rw [UInt8.lt_iff_toNat_lt, hlead]
    simp only [UInt8.reduceToNat]
    omega
  have h2 : (0xC2 ≤ lead && lead ≤ 0xDF) = true := by
    simp only [between_iff, UInt8.reduceToNat, hlead]
    omega
  have htail : isTail a = true := isTail_of_toNat (by omega)
  have hvalue : (lead.toNat - 0xC0) * 64 + v % 64 = v := by omega
  rw [step.eq_def, if_neg h1, if_pos h2]
  dsimp only
  rw [if_pos htail, tail_of_toNat ha, hvalue]

private theorem step_three (hv : 0x800 ≤ v ∧ v < 0x10000) (hvalid : ¬(0xD800 ≤ v ∧ v ≤ 0xDFFF))
    (hlead : lead.toNat = v / 4096 + 0xE0) (ha : a.toNat = v / 64 % 64 + 0x80)
    (hb : b.toNat = v % 64 + 0x80) (rest : List UInt8) :
    step lead (a :: b :: rest) = ⟨some (Char.ofNat v), 2⟩ := by
  have h1 : ¬ lead < 0x80 := by
    rw [UInt8.lt_iff_toNat_lt, hlead]
    simp only [UInt8.reduceToNat]
    omega
  have h2 : ¬((0xC2 ≤ lead && lead ≤ 0xDF) = true) := by
    simp only [between_iff, UInt8.reduceToNat, hlead]
    omega
  have h3 : (0xE0 ≤ lead && lead ≤ 0xEF) = true := by
    simp only [between_iff, UInt8.reduceToNat, hlead]
    omega
  have hsecond : isSecond lead a = true := by apply isSecond_of_toNat <;> omega
  have htail : isTail b = true := isTail_of_toNat (by omega)
  have hvalue : ((lead.toNat - 0xE0) * 64 + v / 64 % 64) * 64 + v % 64 = v := by omega
  rw [step.eq_def, if_neg h1, if_neg h2, if_pos h3]
  dsimp only
  rw [hsecond, htail, tail_of_toNat ha, tail_of_toNat hb, hvalue]
  rfl

private theorem step_four (hv : 0x10000 ≤ v ∧ v < 0x110000)
    (hlead : lead.toNat = v / 262144 + 0xF0) (ha : a.toNat = v / 4096 % 64 + 0x80)
    (hb : b.toNat = v / 64 % 64 + 0x80) (hd : d.toNat = v % 64 + 0x80) (rest : List UInt8) :
    step lead (a :: b :: d :: rest) = ⟨some (Char.ofNat v), 3⟩ := by
  have h1 : ¬ lead < 0x80 := by
    rw [UInt8.lt_iff_toNat_lt, hlead]
    simp only [UInt8.reduceToNat]
    omega
  have h2 : ¬((0xC2 ≤ lead && lead ≤ 0xDF) = true) := by
    simp only [between_iff, UInt8.reduceToNat, hlead]
    omega
  have h3 : ¬((0xE0 ≤ lead && lead ≤ 0xEF) = true) := by
    simp only [between_iff, UInt8.reduceToNat, hlead]
    omega
  have h4 : (0xF0 ≤ lead && lead ≤ 0xF4) = true := by
    simp only [between_iff, UInt8.reduceToNat, hlead]
    omega
  have hsecond : isSecond lead a = true := by apply isSecond_of_toNat <;> omega
  have htail : isTail b = true := isTail_of_toNat (by omega)
  have hlast : isTail d = true := isTail_of_toNat (by omega)
  have hvalue : (((lead.toNat - 0xF0) * 64 + v / 4096 % 64) * 64 + v / 64 % 64) * 64 + v % 64 =
      v := by omega
  rw [step.eq_def, if_neg h1, if_neg h2, if_neg h3, if_pos h4]
  dsimp only
  rw [hsecond, htail, hlast, tail_of_toNat ha, tail_of_toNat hb, tail_of_toNat hd, hvalue]
  rfl

end

/-- The bytes of a character: one that starts it and those that go on with it. -/
structure Encodes (c : Char) (lead : UInt8) (more : List UInt8) : Prop where
  bytes : String.utf8EncodeChar c = lead :: more
  step (rest : List UInt8) : step lead (more ++ rest) = ⟨some c, more.length⟩
  isTail_lead : isTail lead = false
  isTail_more : ∀ b ∈ more, isTail b = true
  /-- Only the ASCII characters have bytes below 0x80, and they have no others. -/
  ascii : c.toNat < 0x80 ∧ lead.toNat = c.toNat ∧ more = [] ∨ 0x80 ≤ c.toNat ∧ 0x80 ≤ lead.toNat

private theorem isTail_eq_false (h : lead.toNat < 0x80 ∨ 0xC0 ≤ lead.toNat) :
    isTail lead = false := by
  rw [Bool.eq_false_iff]
  intro htail
  simp only [isTail, between_iff, UInt8.reduceToNat] at htail
  omega

theorem exists_encodes (c : Char) : ∃ lead more, Encodes c lead more := by
  have hvalid : c.toNat < 0xD800 ∨ 0xDFFF < c.toNat ∧ c.toNat < 0x110000 := c.valid
  have hchar : Char.ofNat c.toNat = c := Char.ofNat_toNat c
  have hbyte : ∀ n < 256, (UInt8.ofNat n).toNat = n := fun n hn => UInt8.toNat_ofNat_of_lt' hn
  have hlow : ∀ v, (UInt8.ofNat (v % 64 + 0x80)).toNat = v % 64 + 0x80 :=
    fun v => hbyte _ (by omega)
  have htail : ∀ v, isTail (UInt8.ofNat (v % 64 + 0x80)) = true :=
    fun v => isTail_of_toNat (by rw [hlow]; omega)
  have hcode : c.val.toNat = c.toNat := rfl
  have hbytes := String.utf8EncodeChar.eq_1 c
  rw [hcode] at hbytes
  split at hbytes
  next h1 =>
    have hlead : (UInt8.ofNat c.toNat).toNat = c.toNat := hbyte _ (by omega)
    refine ⟨_, _, hbytes, fun rest => ?_, isTail_eq_false (by omega), by simp,
      .inl ⟨by omega, hlead, rfl⟩⟩
    rw [List.nil_append, step_one (by omega) hlead, hchar]
    rfl
  next h1 =>
    split at hbytes
    next h2 =>
      have hlead : (UInt8.ofNat (c.toNat / 64 % 32 + 0xC0)).toNat = c.toNat / 64 + 0xC0 := by
        rw [hbyte _ (by omega)]
        omega
      refine ⟨_, _, hbytes, fun rest => ?_, isTail_eq_false (by omega),
        List.forall_mem_singleton.2 (htail _), .inr ⟨by omega, by omega⟩⟩
      rw [List.singleton_append, step_two (by omega) hlead (hlow _), hchar]
      rfl
    next h2 =>
      split at hbytes
      next h3 =>
        have hlead : (UInt8.ofNat (c.toNat / 4096 % 16 + 0xE0)).toNat = c.toNat / 4096 + 0xE0 := by
          rw [hbyte _ (by omega)]
          omega
        refine ⟨_, _, hbytes, fun rest => ?_, isTail_eq_false (by omega),
          List.forall_mem_cons.2 ⟨htail _, List.forall_mem_singleton.2 (htail _)⟩,
          .inr ⟨by omega, by omega⟩⟩
        rw [List.cons_append, List.singleton_append,
          step_three (by omega) (by omega) hlead (hlow _) (hlow _), hchar]
        rfl
      next h3 =>
        have hlead :
            (UInt8.ofNat (c.toNat / 262144 % 8 + 0xF0)).toNat = c.toNat / 262144 + 0xF0 := by
          rw [hbyte _ (by omega)]
          omega
        refine ⟨_, _, hbytes, fun rest => ?_, isTail_eq_false (by omega),
          List.forall_mem_cons.2 ⟨htail _, List.forall_mem_cons.2 ⟨htail _,
            List.forall_mem_singleton.2 (htail _)⟩⟩, .inr ⟨by omega, by omega⟩⟩
        rw [List.cons_append, List.cons_append, List.singleton_append,
          step_four (by omega) hlead (hlow _) (hlow _) (hlow _), hchar]
        rfl

theorem scan_flatMap (s : List Char) :
    scan (s.flatMap String.utf8EncodeChar) = s.map some := by
  induction s with
  | nil => rw [List.flatMap_nil, scan, List.map_nil]
  | cons c s ih =>
    obtain ⟨lead, more, hc⟩ := exists_encodes c
    rw [List.flatMap_cons, hc.bytes, List.cons_append, scan, hc.step]
    simp only [List.drop_left, ih, List.map_cons]

/-- A text is read back from its bytes. -/
theorem decode?_encode (s : String) : decode? (encode s) = some s := by
  rw [decode?, encode, scan_flatMap]
  have hid : ∀ l : List Char, (l.map some).mapM id = some l := by
    intro l
    induction l with
    | nil => rfl
    | cons c l ih => simp [ih]
  rw [hid, Option.map_some, String.ofList_toList]

end PipelineEngine.Utf8
