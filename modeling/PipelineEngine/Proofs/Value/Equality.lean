import PipelineEngine.Proofs.Fields
import PipelineEngine.Proofs.Value.Compare
import PipelineEngine.Proofs.Value.Doubles

/-!
# Equality by value

Two values are equal by value (`Value.Equals`) when they are the same JSON apart from the way
their numbers are held: an integer and a double stand for the same number or they do not.
`Value.equal`, the `==` of expressions, is compared with this.

* `Number.equal_iff`: numbers compare as equal when they are, and when one of them is the double
  that the other is rounded to.
* `Value.same_iff`, by recursion on the value: trees are the same exactly when they are equal by
  value and an integer nowhere stands against a double.
* `Value.equal_iff_equals`: the comparison is equality by value except where values deviate.
-/

namespace PipelineEngine

/-! ## Numbers -/

namespace Number

/-- The number that is held. -/
def value : Number → ℚ
  | .int n => n
  | .float x => Double.value x

/-- The numbers that JSON has here: integers of at most 64 bits and finite doubles. -/
def IsJson : Number → Prop
  | .int n => inRange n = true
  | .float x => x.isFinite = true

/-- One number is held as an integer and the other as a double. -/
def Mixed : Number → Number → Prop
  | .int _, .float _ | .float _, .int _ => True
  | .int _, .int _ | .float _, .float _ => False

/-- An integer and the double nearest to it, which is another number. -/
def Rounded : Number → Number → Prop
  | .int n, .float x | .float x, .int n => Double.value x = Double.nearest n ∧ Double.nearest n ≠ n
  | .int _, .int _ | .float _, .float _ => False

variable {a b : Number} {n : Int}

theorem not_mixed_self (a : Number) : ¬ a.Mixed a := by
  cases a <;> exact id

theorem inRange_iff : inRange n = true ↔ -2 ^ 63 ≤ n ∧ n < 2 ^ 64 := by
  rw [inRange, Bool.and_eq_true, decide_eq_true_eq, decide_eq_true_eq]
  rfl

theorem natAbs_lt_of_inRange (h : inRange n = true) : n.natAbs < 2 ^ 64 := by
  obtain ⟨hlow, hhigh⟩ := inRange_iff.1 h
  omega

theorem same_iff (ha : a.IsJson) (hb : b.IsJson) :
    a.same b = true ↔ a.value = b.value ∧ ¬ a.Mixed b := by
  cases a with
  | int m =>
    cases b with
    | int n => simp [same, value, Mixed]
    | float y => simp [same, Mixed]
  | float x =>
    cases b with
    | int n => simp [same, Mixed]
    | float y => simpa [same, value, Mixed] using Double.beq_iff_value_eq ha hb

/-- An integer equals a double exactly when the double is the nearest one. -/
theorem ofInt_beq_iff {x : Float} (hn : inRange n = true) (hx : x.isFinite = true) :
    (Float.ofInt n == x) = true ↔ Double.value x = Double.nearest n := by
  obtain ⟨hfinite, hvalue⟩ := Double.ofInt_spec (natAbs_lt_of_inRange hn)
  rw [Double.beq_iff_value_eq hfinite hx, hvalue, eq_comm]

/-- Numbers compare as equal when they are, and when one of them is rounded to the other. -/
theorem equal_iff (ha : a.IsJson) (hb : b.IsJson) :
    a.equal b = true ↔ a.value = b.value ∨ a.Rounded b := by
  have hmixed : ∀ {n : Int} {x : Float}, inRange n = true → x.isFinite = true →
      (Double.value x = Double.nearest n ↔ (n : ℚ) = Double.value x ∨
        Double.value x = Double.nearest n ∧ Double.nearest n ≠ n) := by
    intro n x hn hx
    constructor
    · intro h
      by_cases hnearest : Double.nearest n = n
      · exact .inl (by rw [h, hnearest])
      · exact .inr ⟨h, hnearest⟩
    · rintro (h | ⟨h, -⟩)
      · rw [Double.nearest_eq_of_value_eq hx h.symm, h]
      · exact h
  cases a with
  | int m =>
    cases b with
    | int n => simp [equal, value, Rounded]
    | float y => exact (ofInt_beq_iff ha hb).trans (hmixed ha hb)
  | float x =>
    cases b with
    | int n =>
      have hswap : (x == Float.ofInt n) = (Float.ofInt n == x) := beqFloat_comm _ _
      change (x == Float.ofInt n) = true ↔ Double.value x = n ∨ _
      rw [hswap, ofInt_beq_iff hb ha, hmixed hb ha, @eq_comm ℚ (Double.value x) n]
      rfl
    | float y =>
      change (x == y) = true ↔ Double.value x = Double.value y ∨ False
      rw [or_false, Double.beq_iff_value_eq ha hb]

theorem Rounded.value_ne (h : a.Rounded b) : a.value ≠ b.value := by
  have hmixed : ∀ {n : Int} {x : Float},
      Double.value x = Double.nearest n ∧ Double.nearest n ≠ n → (n : ℚ) ≠ Double.value x := by
    rintro n x ⟨hvalue, hne⟩ heq
    rw [hvalue, Int.cast_inj] at heq
    exact hne heq.symm
  cases a with
  | int m =>
    cases b with
    | int n => exact h.elim
    | float y => exact hmixed h
  | float x =>
    cases b with
    | int n => exact (hmixed h).symm
    | float y => exact h.elim

end Number

/-! ## Values -/

namespace Value

/-- The values that JSON has here: its numbers can be held, and an object has each name once. -/
inductive IsJson : Value → Prop
  | null : IsJson .null
  | bool (b : Bool) : IsJson (.bool b)
  | number {n : Number} (h : n.IsJson) : IsJson (.number n)
  | string (s : String) : IsJson (.string s)
  | array {items : List Value} (h : ∀ v ∈ items, IsJson v) : IsJson (.array items)
  | object {fields : Fields Value} (hsorted : fields.Sorted)
      (h : ∀ name v, fields.get? name = some v → IsJson v) : IsJson (.object fields)

/-- Equality as JSON, with numbers compared by value at every depth. -/
inductive Equals : Value → Value → Prop
  | null : Equals .null .null
  | bool (b : Bool) : Equals (.bool b) (.bool b)
  | number {a b : Number} (h : a.value = b.value) : Equals (.number a) (.number b)
  | string (s : String) : Equals (.string s) (.string s)
  | array {as bs : List Value} (hlength : as.length = bs.length)
      (h : ∀ (i : Nat) (v w : Value), as[i]? = some v → bs[i]? = some w → Equals v w) :
    Equals (.array as) (.array bs)
  | object {as bs : Fields Value}
      (hnames : ∀ name, (as.get? name).isSome = (bs.get? name).isSome)
      (h : ∀ name v w, as.get? name = some v → bs.get? name = some w → Equals v w) :
    Equals (.object as) (.object bs)

/-- At some place an integer stands in one value and a double in the other. -/
inductive Mixes : Value → Value → Prop
  | number {a b : Number} (h : a.Mixed b) : Mixes (.number a) (.number b)
  | item {as bs : List Value} {i : Nat} {v w : Value} (ha : as[i]? = some v) (hb : bs[i]? = some w)
      (h : Mixes v w) : Mixes (.array as) (.array bs)
  | field {as bs : Fields Value} {name : String} {v w : Value} (ha : as.get? name = some v)
      (hb : bs.get? name = some w) (h : Mixes v w) : Mixes (.object as) (.object bs)

/-! ### Trees -/

variable {a b : Value} {items items' : List Value} {fields fields' : Fields Value}

theorem sameItems_iff :
    sameItems items items' = true ↔ items.length = items'.length ∧
      ∀ (i : Nat) (v w : Value), items[i]? = some v → items'[i]? = some w → same v w = true := by
  induction items generalizing items' with
  | nil =>
    cases items' with
    | nil => simp [sameItems]
    | cons b bs => simp [sameItems]
  | cons a as ih =>
    cases items' with
    | nil => simp [sameItems]
    | cons b bs =>
      rw [sameItems, Bool.and_eq_true, ih, List.length_cons, List.length_cons,
        Nat.add_right_cancel_iff]
      constructor
      · rintro ⟨hab, hlength, h⟩
        refine ⟨hlength, fun i v w hv hw => ?_⟩
        cases i with
        | zero =>
          cases hv
          cases hw
          exact hab
        | succ i => exact h i v w hv hw
      · rintro ⟨hlength, h⟩
        exact ⟨h 0 a b rfl rfl, hlength, fun i v w hv hw => h (i + 1) v w hv hw⟩

/-- Objects with the same names start with the same one: the smaller of two different first names
would be missing in the other object. -/
theorem first_name_eq {k l : String} {a b : Value} (hsorted : Fields.Sorted ((k, a) :: fields))
    (hsorted' : Fields.Sorted ((l, b) :: fields'))
    (hnames : ∀ name, (Fields.get? ((k, a) :: fields) name).isSome =
      (Fields.get? ((l, b) :: fields') name).isSome) : k = l := by
  by_contra hne
  have hk : (Fields.get? fields' k).isSome = true := by
    rw [← Fields.get?_cons_of_ne hne b fields', ← hnames, Fields.get?_cons_self]
    rfl
  have hl : (Fields.get? fields l).isSome = true := by
    rw [← Fields.get?_cons_of_ne (Ne.symm hne) a fields, hnames, Fields.get?_cons_self]
    rfl
  obtain ⟨f, hf, hfk⟩ := List.mem_map.1 (Fields.isSome_get?_iff.1 hk)
  obtain ⟨g, hg, hgl⟩ := List.mem_map.1 (Fields.isSome_get?_iff.1 hl)
  have hlt : l < k := hfk ▸ (List.pairwise_cons.1 hsorted').1 f hf
  have hgt : k < l := hgl ▸ (List.pairwise_cons.1 hsorted).1 g hg
  exact String.lt_asymm hlt hgt

theorem sameFields_iff (hsorted : fields.Sorted) (hsorted' : fields'.Sorted) :
    sameFields fields fields' = true ↔
      (∀ name, (fields.get? name).isSome = (fields'.get? name).isSome) ∧
      ∀ name v w, fields.get? name = some v → fields'.get? name = some w → same v w = true := by
  induction fields generalizing fields' with
  | nil =>
    cases fields' with
    | nil => simp [sameFields]
    | cons f bs =>
      obtain ⟨l, b⟩ := f
      refine iff_of_false (by simp [sameFields]) fun h => ?_
      simpa [Fields.get?] using h.1 l
  | cons f as ih =>
    obtain ⟨k, a⟩ := f
    cases fields' with
    | nil =>
      refine iff_of_false (by simp [sameFields]) fun h => ?_
      simpa [Fields.get?] using h.1 k
    | cons f bs =>
      obtain ⟨l, b⟩ := f
      rw [sameFields, Bool.and_eq_true, Bool.and_eq_true, beq_iff_eq,
        ih hsorted.of_cons hsorted'.of_cons]
      constructor
      · rintro ⟨⟨rfl, hab⟩, hnames, h⟩
        refine ⟨fun name => ?_, fun name v w hv hw => ?_⟩
        · by_cases hname : name = k
          · rw [hname, Fields.get?_cons_self, Fields.get?_cons_self]
            rfl
          · rw [Fields.get?_cons_of_ne hname, Fields.get?_cons_of_ne hname, hnames]
        · by_cases hname : name = k
          · rw [hname, Fields.get?_cons_self] at hv hw
            cases hv
            cases hw
            exact hab
          · rw [Fields.get?_cons_of_ne hname] at hv hw
            exact h name v w hv hw
      · rintro ⟨hnames, h⟩
        obtain rfl := first_name_eq hsorted hsorted' hnames
        have hab := h k a b (Fields.get?_cons_self k a as) (Fields.get?_cons_self k b bs)
        refine ⟨⟨rfl, hab⟩, ?_, ?_⟩
        · intro name
          by_cases hname : name = k
          · rw [hname, Fields.get?_rest hsorted, Fields.get?_rest hsorted']
          · have hwhole := hnames name
            rwa [Fields.get?_cons_of_ne hname, Fields.get?_cons_of_ne hname] at hwhole
        · intro name v w hv hw
          by_cases hname : name = k
          · rw [hname, Fields.get?_rest hsorted] at hv
            cases hv
          · exact h name v w (by rwa [Fields.get?_cons_of_ne hname])
              (by rwa [Fields.get?_cons_of_ne hname])

/-- Trees are the same exactly when they are equal by value and no integer stands against a
double. -/
theorem same_iff (ha : a.IsJson) (hb : b.IsJson) : same a b = true ↔ a.Equals b ∧ ¬ a.Mixes b := by
  induction ha generalizing b with
  | null =>
    cases hb with
    | null => exact iff_of_true rfl ⟨.null, nofun⟩
    | bool | number | string | array | object => exact iff_of_false nofun (nomatch ·.1)
  | bool x =>
    cases hb with
    | bool y =>
      rw [same, beq_iff_eq]
      constructor
      · rintro rfl
        exact ⟨.bool x, nofun⟩
      · rintro ⟨h, -⟩
        cases h
        rfl
    | null | number | string | array | object => exact iff_of_false nofun (nomatch ·.1)
  | number h =>
    cases hb with
    | number h' =>
      rw [same, Number.same_iff h h']
      constructor
      · rintro ⟨hvalue, hmixed⟩
        refine ⟨.number hvalue, fun hmixes => ?_⟩
        cases hmixes with
        | number h => exact hmixed h
      · rintro ⟨hequals, hmixes⟩
        cases hequals with
        | number hvalue => exact ⟨hvalue, fun h => hmixes (.number h)⟩
    | null | bool | string | array | object => exact iff_of_false nofun (nomatch ·.1)
  | string x =>
    cases hb with
    | string y =>
      rw [same, beq_iff_eq]
      constructor
      · rintro rfl
        exact ⟨.string x, nofun⟩
      · rintro ⟨h, -⟩
        cases h
        rfl
    | null | bool | number | array | object => exact iff_of_false nofun (nomatch ·.1)
  | @array items h ih =>
    cases hb with
    | @array items' h' =>
      have hitem : ∀ (i : Nat) (v w : Value), items[i]? = some v → items'[i]? = some w →
          (same v w = true ↔ v.Equals w ∧ ¬ v.Mixes w) := fun i v w hv hw =>
        ih v (List.mem_of_getElem? hv) (h' w (List.mem_of_getElem? hw))
      rw [same, sameItems_iff]
      constructor
      · rintro ⟨hlength, hsame⟩
        have hboth := fun i v w hv hw => (hitem i v w hv hw).1 (hsame i v w hv hw)
        refine ⟨.array hlength fun i v w hv hw => (hboth i v w hv hw).1, fun hmixes => ?_⟩
        cases hmixes with
        | item hv hw hmixes => exact (hboth _ _ _ hv hw).2 hmixes
      · rintro ⟨hequals, hmixes⟩
        cases hequals with
        | array hlength hequals =>
          exact ⟨hlength, fun i v w hv hw => (hitem i v w hv hw).2
            ⟨hequals i v w hv hw, fun hmixed => hmixes (.item hv hw hmixed)⟩⟩
    | null | bool | number | string | object => exact iff_of_false nofun (nomatch ·.1)
  | @object fields hsorted h ih =>
    cases hb with
    | @object fields' hsorted' h' =>
      have hfield : ∀ (name : String) (v w : Value), fields.get? name = some v →
          fields'.get? name = some w → (same v w = true ↔ v.Equals w ∧ ¬ v.Mixes w) :=
        fun name v w hv hw => ih name v hv (h' name w hw)
      rw [same, sameFields_iff hsorted hsorted']
      constructor
      · rintro ⟨hnames, hsame⟩
        have hboth := fun name v w hv hw => (hfield name v w hv hw).1 (hsame name v w hv hw)
        refine ⟨.object hnames fun name v w hv hw => (hboth name v w hv hw).1, fun hmixes => ?_⟩
        cases hmixes with
        | field hv hw hmixes => exact (hboth _ _ _ hv hw).2 hmixes
      · rintro ⟨hequals, hmixes⟩
        cases hequals with
        | object hnames hequals =>
          exact ⟨hnames, fun name v w hv hw => (hfield name v w hv hw).2
            ⟨hequals name v w hv hw, fun hmixed => hmixes (.field hv hw hmixed)⟩⟩
    | null | bool | number | string | array => exact iff_of_false nofun (nomatch ·.1)

/-! ### The equality of expressions -/

/-- Where the equality of expressions is not equality by value: an integer at the top equals the
double it is rounded to, and an integer further down does not equal the double of its value. -/
def Deviates : Value → Value → Prop
  | .number a, .number b => a.Rounded b
  | a, b => a.Equals b ∧ a.Mixes b

theorem equal_iff_same_of_not_number (h : ∀ x y, a = .number x → b ≠ .number y) :
    a.equal b = same a b ∧ (a.Deviates b ↔ a.Equals b ∧ a.Mixes b) := by
  cases a with
  | number x =>
    cases b with
    | number y => exact absurd rfl (h x y rfl)
    | null | bool | string | array | object => exact ⟨rfl, Iff.rfl⟩
  | null | bool | string | array | object => exact ⟨rfl, Iff.rfl⟩

theorem same_self (h : a.IsJson) : same a a = true := by
  induction h with
  | null => rfl
  | bool b => exact beq_self_eq_true b
  | @number n h => exact (Number.same_iff h h).2 ⟨rfl, n.not_mixed_self⟩
  | string s => exact beq_self_eq_true s
  | array _ ih =>
    refine sameItems_iff.2 ⟨rfl, fun i v w hv hw => ?_⟩
    obtain rfl := Option.some.inj (hv.symm.trans hw)
    exact ih v (List.mem_of_getElem? hv)
  | object hsorted _ ih =>
    refine (sameFields_iff hsorted hsorted).2 ⟨fun _ => rfl, fun name v w hv hw => ?_⟩
    obtain rfl := Option.some.inj (hv.symm.trans hw)
    exact ih name v hv

/-- A value equals itself. -/
theorem equal_self (h : a.IsJson) : a.equal a = true := by
  have hsame := same_self h
  cases h with
  | number hn => exact (Number.equal_iff hn hn).2 (.inl rfl)
  | null | bool | string | array | object => exact hsame

/-- Two values compare as equal exactly when they are equal as JSON, with numbers compared by
value at every depth, unless they deviate: then they compare the other way. -/
theorem equal_iff_equals (ha : a.IsJson) (hb : b.IsJson) :
    (a.equal b = true ↔ a.Equals b) ↔ ¬ a.Deviates b := by
  by_cases hnumbers : ∃ x y, a = .number x ∧ b = .number y
  · obtain ⟨x, y, rfl, rfl⟩ := hnumbers
    cases ha with
    | number hx =>
      cases hb with
      | number hy =>
        have hequals : Equals (.number x) (.number y) ↔ x.value = y.value :=
          ⟨fun h => by cases h; assumption, .number⟩
        have hequal : equal (.number x) (.number y) = x.equal y := rfl
        have hrounded : x.Rounded y → x.value ≠ y.value := Number.Rounded.value_ne
        rw [hequals, hequal, Number.equal_iff hx hy]
        change _ ↔ ¬ x.Rounded y
        tauto
  · have hother : ∀ x y, a = .number x → b ≠ .number y :=
      fun x y hx hy => hnumbers ⟨x, y, hx, hy⟩
    obtain ⟨hequal, hdeviates⟩ := equal_iff_same_of_not_number hother
    rw [hequal, hdeviates, same_iff ha hb]
    tauto

/-- The integer 2 ^ 53 + 1 equals the double 2 ^ 53, which is another number. -/
theorem equal_iff_equals_rounded :
    IsJson (.int 9007199254740993) ∧ IsJson (.number (.float 9007199254740992.0)) ∧
      Deviates (.int 9007199254740993) (.number (.float 9007199254740992.0)) ∧
      ¬ (equal (.int 9007199254740993) (.number (.float 9007199254740992.0)) = true ↔
        Equals (.int 9007199254740993) (.number (.float 9007199254740992.0))) := by
  have hinteger : IsJson (.int 9007199254740993) := .number rfl
  have hdouble : IsJson (.number (.float 9007199254740992.0)) := .number rfl
  have hdeviates : Deviates (.int 9007199254740993) (.number (.float 9007199254740992.0)) := by
    have hnearest : Double.nearest 9007199254740993 = 9007199254740992 := by decide +kernel
    have hunpack : (9007199254740992.0 : Float).toModel.unpack =
        .finite .positive (2 ^ 52) 1 (by decide) := rfl
    have hvalue : Double.value 9007199254740992.0 = 9007199254740992 := by
      rw [Double.value, hunpack]
      norm_num [Double.rational, Float.Model.UnpackedFloat.Sign.apply]
    refine ⟨?_, by rw [hnearest]; decide⟩
    rw [hvalue, hnearest]
    norm_num
  exact ⟨hinteger, hdouble, hdeviates,
    fun h => (equal_iff_equals hinteger hdouble).1 h hdeviates⟩

/-- An array with the integer 1 does not equal an array with the double 1. -/
theorem not_equal_iff_equals :
    ¬ ∀ a b : Value, a.IsJson → b.IsJson → (a.equal b = true ↔ a.Equals b) := by
  intro h
  have hinteger : IsJson (.array [.int 1]) := .array fun v hv => by
    obtain rfl := List.mem_singleton.1 hv
    exact .number rfl
  have hdouble : IsJson (.array [.number (.float 1.0)]) := .array fun v hv => by
    obtain rfl := List.mem_singleton.1 hv
    exact .number rfl
  have hequals : Equals (.array [.int 1]) (.array [.number (.float 1.0)]) := by
    have hunpack : (1.0 : Float).toModel.unpack =
        .finite .positive (2 ^ 52) (-52) (by decide) := rfl
    have hvalue : Double.value 1.0 = 1 := by
      rw [Double.value, hunpack]
      norm_num [Double.rational, Float.Model.UnpackedFloat.Sign.apply]
    refine .array rfl fun i v w hv hw => ?_
    cases i with
    | zero =>
      cases hv
      cases hw
      exact .number (by rw [Number.value, Number.value, hvalue, Int.cast_one])
    | succ i => cases hv
  exact Bool.false_ne_true ((h _ _ hinteger hdouble).2 hequals)

end Value

end PipelineEngine
