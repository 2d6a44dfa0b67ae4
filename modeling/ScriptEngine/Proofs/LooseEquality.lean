import ScriptEngine.Evaluation.Methods

/-! # Loose equality

The distance of two numbers does not depend on their order, and neither does identity, so values
of which both or neither count as a number are compared alike in either order. A number in front
of any other value is an error; behind it, it is a difference. -/

namespace ScriptEngine

/-! ### The distance of two numbers -/

namespace Number

variable {f : Format}

theorem signed_not (s : Bool) (m : Magnitude f) : signed (!s) m = -signed s m := by
  cases s <;> simp [signed]

theorem abs_ofUnits (s : Bool) (num den : Nat) :
    (ofUnits s num den : Number f).abs = ofUnits false num den := by
  unfold ofUnits
  split <;> rfl

theorem abs_ofSigned (s : Bool) (num : Int) (den : Nat) :
    (ofSigned s num den : Number f).abs = ofUnits false num.natAbs den :=
  abs_ofUnits _ _ _

theorem abs_sub_finite (s t : Bool) (m n : Magnitude f) :
    ((finite s m).sub (finite t n)).abs = ofUnits false (signed s m - signed t n).natAbs 1 := by
  have hsum : signed s m + signed (!t) n = signed s m - signed t n := by
    rw [signed_not, Int.sub_eq_add_neg]
  rw [← hsum]
  exact abs_ofSigned _ _ _

theorem abs_sub_comm (x y : Number f) : (x.sub y).abs = (y.sub x).abs := by
  cases x with
  | nan => cases y <;> rfl
  | infinite s =>
    cases y with
    | nan | finite => rfl
    | infinite t => cases s <;> cases t <;> rfl
  | finite s m =>
    cases y with
    | nan | infinite => rfl
    | finite t n => rw [abs_sub_finite, abs_sub_finite, ← Int.natAbs_neg, Int.neg_sub]

end Number

/-! ### Both orders -/

namespace Value

/-- A number, or null, which counts as one. -/
def IsNumeric (v : Value) : Prop :=
  v = .null ∨ ∃ stamp x, v = .number stamp x

theorem isNumeric_iff (v : Value) : v.IsNumeric ↔ ∃ x, v.number? = some x := by
  cases v <;> simp [IsNumeric, number?]

theorem not_isNumeric_iff (v : Value) : ¬ v.IsNumeric ↔ v.number? = none := by
  rw [isNumeric_iff, ← Option.isSome_iff_exists, Option.not_isSome_iff_eq_none]

theorem same_comm (a b : Value) : a.same b = b.same a := by
  cases a <;> cases b <;> simp only [same] <;> exact Bool.beq_comm

/-- Equality of values that are not numbers: texts by content, all else by identity. -/
def resembles : Value → Value → Bool
  | .text _ s, .text _ t => s == t
  | a, b => a.same b

theorem resembles_comm (a b : Value) : a.resembles b = b.resembles a := by
  cases a <;> cases b <;> simp only [resembles, same_comm]
  exact Bool.beq_comm

theorem resembles_numeric {a b : Value} (ha : ¬ a.IsNumeric) (hb : b.IsNumeric) :
    a.resembles b = false := by
  rcases hb with rfl | ⟨stamp, x, rfl⟩ <;> cases a <;> first | rfl | simp [IsNumeric] at ha

end Value

namespace Operators

variable (h : Heap) {a b : Value}

theorem equals_numbers {x y : Single} (ha : a.number? = some x) (hb : b.number? = some y) :
    equals h a b = .ok ((x.sub y).abs.lt tolerance) := by
  unfold equals
  rw [ha, hb]

theorem equals_number_other (ha : a.IsNumeric) (hb : ¬ b.IsNumeric) :
    equals h a b = .error (.illegalOperation (h.display b)) := by
  obtain ⟨x, hx⟩ := (Value.isNumeric_iff a).1 ha
  unfold equals
  rw [hx, (Value.not_isNumeric_iff b).1 hb]

theorem equals_others (ha : ¬ a.IsNumeric) : equals h a b = .ok (a.resembles b) := by
  unfold equals
  rw [(Value.not_isNumeric_iff a).1 ha]
  cases a <;> cases b <;> rfl

theorem equals_other_number (ha : ¬ a.IsNumeric) (hb : b.IsNumeric) :
    equals h a b = .ok false := by
  rw [equals_others h ha, Value.resembles_numeric ha hb]

/-- Two values that both count as numbers, or neither of them, give one answer in both orders. -/
theorem equals_comm (hab : a.IsNumeric ↔ b.IsNumeric) :
    ∃ answer, equals h a b = .ok answer ∧ equals h b a = .ok answer := by
  by_cases ha : a.IsNumeric
  · obtain ⟨x, hx⟩ := (Value.isNumeric_iff a).1 ha
    obtain ⟨y, hy⟩ := (Value.isNumeric_iff b).1 (hab.1 ha)
    refine ⟨_, equals_numbers h hx hy, ?_⟩
    rw [equals_numbers h hy hx, Number.abs_sub_comm]
  · have hb : ¬ b.IsNumeric := mt hab.2 ha
    refine ⟨_, equals_others h ha, ?_⟩
    rw [equals_others h hb, Value.resembles_comm]

theorem equals_error_iff :
    (∃ fault, equals h a b = .error fault) ↔ a.IsNumeric ∧ ¬ b.IsNumeric := by
  constructor
  · rintro ⟨fault, hfault⟩
    by_cases ha : a.IsNumeric
    · refine ⟨ha, fun hb => ?_⟩
      obtain ⟨answer, hanswer, -⟩ := equals_comm h (iff_of_true ha hb)
      simp [hanswer] at hfault
    · simp [equals_others h ha] at hfault
  · rintro ⟨ha, hb⟩
    exact ⟨_, equals_number_other h ha hb⟩

/-- Both are the same boolean, or both are errors. -/
def Alike (p q : Except Fault Bool) : Prop :=
  (∃ answer, p = .ok answer ∧ q = .ok answer) ∨ (∃ f g, p = .error f ∧ q = .error g)

theorem not_alike_number_other (ha : a.IsNumeric) (hb : ¬ b.IsNumeric) :
    ¬ Alike (equals h a b) (equals h b a) := by
  rw [equals_number_other h ha hb, equals_other_number h hb ha]
  simp [Alike]

theorem not_alike_other_number (ha : ¬ a.IsNumeric) (hb : b.IsNumeric) :
    ¬ Alike (equals h a b) (equals h b a) := by
  rw [equals_number_other h hb ha, equals_other_number h ha hb]
  simp [Alike]

theorem equals_alike_iff :
    Alike (equals h a b) (equals h b a) ↔ (a.IsNumeric ↔ b.IsNumeric) := by
  refine ⟨fun halike => ⟨fun ha => ?_, fun hb => ?_⟩, fun hab => .inl (equals_comm h hab)⟩
  · exact Classical.byContradiction fun hb => not_alike_number_other h ha hb halike
  · exact Classical.byContradiction fun ha => not_alike_other_number h ha hb halike

theorem equals_true_comm : equals h a b = .ok true ↔ equals h b a = .ok true := by
  by_cases ha : a.IsNumeric <;> by_cases hb : b.IsNumeric
  · obtain ⟨answer, hab, hba⟩ := equals_comm h (iff_of_true ha hb)
    rw [hab, hba]
  · simp [equals_number_other h ha hb, equals_other_number h hb ha]
  · simp [equals_number_other h hb ha, equals_other_number h ha hb]
  · obtain ⟨answer, hab, hba⟩ := equals_comm h (iff_of_false ha hb)
    rw [hab, hba]

/-- Comparing is an error exactly when a number stands in front of a value that is none, so the
order of the operands makes no difference exactly when both are numbers or neither is. It never
decides whether they are found equal. -/
theorem equals_both_orders (h : Heap) (a b : Value) :
    ((∃ fault, equals h a b = .error fault) ↔ a.IsNumeric ∧ ¬ b.IsNumeric) ∧
    (Alike (equals h a b) (equals h b a) ↔ (a.IsNumeric ↔ b.IsNumeric)) ∧
    (equals h a b = .ok true ↔ equals h b a = .ok true) :=
  ⟨equals_error_iff h, equals_alike_iff h, equals_true_comm h⟩

/-- A text in front of a number is different from it, the number in front of the text an error. -/
theorem not_alike_text_one :
    let text := Value.text 0 "a"
    let one := Value.number 1 (.ofNat 1)
    equals .empty text one = .ok false ∧
    equals .empty one text = .error (.illegalOperation "a") ∧
    ¬ Alike (equals .empty text one) (equals .empty one text) :=
  ⟨rfl, rfl, by simp [Alike, equals, Value.number?, Value.same]⟩

end Operators

end ScriptEngine
