import PrtsMcp.JsNumber
import PrtsMcp.JsonRpc

/-!
# Tool arguments

The boundary that checks the arguments of a tool call. A handler reads one field after the other,
what it reads next may depend on what it has read, and `finish` reports the issues met on the way.
-/
namespace PrtsMcp

namespace JsonNumber

/-- `as_i64`. -/
def asI64 : JsonNumber JsNumber → Option ℤ
  | posInt n => if n.toNat < 2 ^ 63 then some n.toNat else none
  | negInt n => some n.toInt
  | float _ => none

/-- `as_f64`. -/
def asF64 : JsonNumber JsNumber → JsNumber
  | posInt n => .ofRat n.toNat
  | negInt n => .ofRat n.toInt
  | float x => x

/-- The number that was written, where it is one. -/
def value : JsonNumber JsNumber → Option ℚ
  | posInt n => some n.toNat
  | negInt n => some n.toInt
  | float (.finite x) => some x
  | float _ => none

end JsonNumber

namespace Zodish

open JsonValue

abbrev Value := JsonValue JsNumber

/-! ## Numbers as integers -/

def jsonNumberIsInteger (n : JsonNumber JsNumber) : Bool :=
  match n.asI64 with
  | some _ => true
  | none =>
    match n.asF64 with
    | .finite x => x.den = 1
    | _ => false

def jsonNumberAsInteger (n : JsonNumber JsNumber) : Option ℤ :=
  n.asI64.or (match n.asF64 with
    | .finite x => if x.den = 1 ∧ -2 ^ 53 ≤ x ∧ x ≤ 2 ^ 53 then some x.num else none
    | _ => none)

/-- A whole number beyond those that are returned. -/
def TooLarge : JsonNumber JsNumber → Prop
  | .posInt n => 2 ^ 63 ≤ n.toNat
  | .negInt _ => False
  | .float (.finite x) => x.den = 1 ∧ 2 ^ 53 < |x|
  | .float _ => False

theorem jsonNumberAsInteger_value {k : JsonNumber JsNumber} {n : ℤ}
    (h : jsonNumberAsInteger k = some n) (hk : ¬ TooLarge k) : k.value = some (n : ℚ) := by
  cases k with
  | posInt m =>
    have hm : m.toNat < 2 ^ 63 := not_le.mp hk
    simp only [jsonNumberAsInteger, JsonNumber.asI64, hm, if_true, Option.some_or,
      Option.some.injEq] at h
    simp [JsonNumber.value, ← h]
  | negInt m =>
    simp only [jsonNumberAsInteger, JsonNumber.asI64, Option.some_or, Option.some.injEq] at h
    simp [JsonNumber.value, ← h]
  | float x =>
    cases x with
    | finite x =>
      simp only [jsonNumberAsInteger, JsonNumber.asI64, JsonNumber.asF64, Option.none_or,
        Option.ite_none_right_eq_some, Option.some.injEq] at h
      obtain ⟨⟨hden, -, -⟩, rfl⟩ := h
      simp [JsonNumber.value, Rat.coe_int_num_of_den_eq_one hden]
    | nan => simp [jsonNumberAsInteger, JsonNumber.asI64, JsonNumber.asF64] at h
    | infinite b => simp [jsonNumberAsInteger, JsonNumber.asI64, JsonNumber.asF64] at h

/-- From `2 ^ 63` on the doubles lie `2 ^ 11` apart. -/
theorem ofRat_natCast {n : ℕ} (h : 2 ^ 63 ≤ n) (hn : n < 2 ^ 64) :
    ∃ m : ℤ, JsNumber.ofRat n = .finite m ∧ 2 ^ 63 ≤ m := by
  have hlog : Int.log 2 |(n : ℚ)| = 63 := by
    rw [Nat.abs_cast, Int.log_natCast, Nat.log_eq_of_pow_le_of_lt_pow h hn]
    rfl
  have hulp : JsNumber.ulp n = 2 ^ 11 := by
    unfold JsNumber.ulp
    rw [hlog]
    norm_num
  have hbelow : (2 ^ 52 : ℤ) ≤ ⌊(n : ℚ) / 2 ^ 11⌋ := by
    rw [Int.le_floor, le_div_iff₀ (by norm_num)]
    have : ((2 ^ 63 : ℕ) : ℚ) ≤ n := Nat.cast_le.mpr h
    norm_num at this ⊢
    exact this
  have habove : ⌊(n : ℚ) / 2 ^ 11⌋ < 2 ^ 53 := by
    rw [Int.floor_lt, div_lt_iff₀ (by norm_num)]
    have : (n : ℚ) < ((2 ^ 64 : ℕ) : ℚ) := Nat.cast_lt.mpr hn
    norm_num at this ⊢
    exact this
  have hround : ⌊(n : ℚ) / 2 ^ 11⌋ ≤ JsNumber.roundHalfEven ((n : ℚ) / 2 ^ 11) ∧
      JsNumber.roundHalfEven ((n : ℚ) / 2 ^ 11) ≤ ⌊(n : ℚ) / 2 ^ 11⌋ + 1 := by
    unfold JsNumber.roundHalfEven
    dsimp only
    split_ifs <;> omega
  generalize hr : JsNumber.roundHalfEven ((n : ℚ) / 2 ^ 11) = r at hround
  have hr₀ : (0 : ℚ) ≤ r := by
    have : (0 : ℤ) ≤ r := by omega
    exact_mod_cast this
  have hr₁ : (r : ℚ) ≤ 2 ^ 53 := by
    have : r ≤ 2 ^ 53 := by omega
    exact_mod_cast this
  refine ⟨r * 2 ^ 11, ?_, by omega⟩
  unfold JsNumber.ofRat
  rw [hulp, hr]
  dsimp only
  rw [if_pos]
  · push_cast
    rfl
  · rw [abs_of_nonneg (by positivity)]
    calc (r : ℚ) * 2 ^ 11 ≤ 2 ^ 53 * 2 ^ 11 := by gcongr
      _ = 2 ^ 64 := by norm_num
      _ < 2 ^ 1024 := pow_lt_pow_right₀ (by norm_num) (by norm_num)

theorem jsonNumberAsInteger_eq_none {k : JsonNumber JsNumber} (h : jsonNumberIsInteger k = true) :
    jsonNumberAsInteger k = none ↔ TooLarge k := by
  cases k with
  | posInt n =>
    by_cases hn : n.toNat < 2 ^ 63
    · have hsome : (JsonNumber.posInt n : JsonNumber JsNumber).asI64 = some (n.toNat : ℤ) :=
        if_pos hn
      simpa [jsonNumberAsInteger, hsome, TooLarge] using hn
    · obtain ⟨m, hm, hlarge⟩ := ofRat_natCast (not_lt.mp hn) n.toNat_lt
      have hbig : ¬ (m : ℚ) ≤ 2 ^ 53 := by
        have : ¬ m ≤ 2 ^ 53 := by omega
        exact_mod_cast this
      simp [jsonNumberAsInteger, JsonNumber.asI64, JsonNumber.asF64, TooLarge, hm, hbig]
  | negInt n => simp [jsonNumberAsInteger, JsonNumber.asI64, TooLarge]
  | float x =>
    cases x with
    | finite x =>
      have hden : x.den = 1 := by
        simpa [jsonNumberIsInteger, JsonNumber.asI64, JsonNumber.asF64] using h
      simp only [jsonNumberAsInteger, JsonNumber.asI64, JsonNumber.asF64, Option.none_or, hden,
        true_and, TooLarge]
      rw [← not_le, abs_le]
      simp
    | nan => simp [jsonNumberIsInteger, JsonNumber.asI64, JsonNumber.asF64] at h
    | infinite b => simp [jsonNumberIsInteger, JsonNumber.asI64, JsonNumber.asF64] at h

/-! ## Fields -/

def jsTypeName : Value → String
  | .null => "null"
  | .bool _ => "boolean"
  | .number _ => "number"
  | .string _ => "string"
  | .array _ => "array"
  | .object _ => "object"

structure Args where
  obj : Option (List (String × Value))
  issues : List String

namespace Args

def new : Value → Args
  | .object fields => ⟨some fields, []⟩
  | _ => ⟨none, []⟩

def notRecord (a : Args) : Bool := a.obj.isNone

def issue (field message : String) (a : Args) : Args :=
  { a with issues := a.issues ++ [field ++ ": " ++ message] }

def field? (a : Args) (field : String) : Option Value := a.obj.bind (List.lookup field)

/-- The issue about a value of another type. -/
def mistyped (field expected received : String) (a : Args) : Args :=
  a.issue field ("Invalid input: expected " ++ expected ++ ", received " ++ received)

def string (field : String) (a : Args) : Option String × Args :=
  match a.field? field with
  | none => (none, a)
  | some (.string s) => (some s, a)
  | some v => (none, a.mistyped field "string" (jsTypeName v))

def requiredString (field : String) (a : Args) : Option String × Args :=
  match a.field? field with
  | none => (none, a.mistyped field "string" "undefined")
  | some _ => a.string field

def invalidOption (field : String) (options : List String) (a : Args) : Args :=
  a.issue field ("Invalid option: expected one of " ++
    String.intercalate "|" (options.map fun o => "\"" ++ o ++ "\""))

/-- A value that must be one of the options. -/
def option (field : String) (options : List String) (v : Value) (a : Args) : Option String × Args :=
  match v with
  | .string s => if s ∈ options then (some s, a) else (none, a.invalidOption field options)
  | _ => (none, a.invalidOption field options)

def enumDefault (field : String) (options : List String) (default : String) (a : Args) :
    String × Args :=
  match a.field? field with
  | none => (default, a)
  | some v => ((a.option field options v).1.getD default, (a.option field options v).2)

def optionalEnum (field : String) (options : List String) (a : Args) : Option String × Args :=
  match a.field? field with
  | none => (none, a)
  | some v => a.option field options v

def requiredEnum (field : String) (options : List String) (a : Args) : Option String × Args :=
  match a.field? field with
  | none => (none, a.invalidOption field options)
  | some v => a.option field options v

def intValue (field : String) (v : Value) (a : Args) : Option ℤ × Args :=
  match v with
  | .number n =>
    if jsonNumberIsInteger n then (jsonNumberAsInteger n, a)
    else (none, a.mistyped field "int" "number")
  | v => (none, a.mistyped field "number" (jsTypeName v))

/-- The bounds of an integer that was read. -/
def bounded (field : String) (min : ℤ) (max : Option ℤ) (value : ℤ) (a : Args) : Option ℤ × Args :=
  if value < min then
    (none, a.issue field ("Too small: expected number to be >=" ++ toString min))
  else
    match max with
    | none => (some value, a)
    | some max =>
      if max < value then (none, a.issue field ("Too big: expected number to be <=" ++ toString max))
      else (some value, a)

/-- An integer within bounds. -/
def boundedInt (field : String) (min : ℤ) (max : Option ℤ) (v : Value) (a : Args) :
    Option ℤ × Args :=
  match a.intValue field v with
  | (none, a) => (none, a)
  | (some value, a) => a.bounded field min max value

def intDefault (field : String) (min : ℤ) (max : Option ℤ) (default : ℤ) (a : Args) : ℤ × Args :=
  match a.field? field with
  | none => (default, a)
  | some v => ((a.boundedInt field min max v).1.getD default, (a.boundedInt field min max v).2)

def optionalInt (field : String) (a : Args) : Option ℤ × Args :=
  match a.field? field with
  | none => (none, a)
  | some .null => (none, a.mistyped field "number" "null")
  | some v => a.intValue field v

def nullishInt (field : String) (min : ℤ) (max : Option ℤ) (a : Args) : Option ℤ × Args :=
  match a.field? field with
  | none => (none, a)
  | some .null => (none, a)
  | some v => a.boundedInt field min max v

def booleanDefault (field : String) (default : Bool) (a : Args) : Bool × Args :=
  match a.field? field with
  | none => (default, a)
  | some (.bool b) => (b, a)
  | some v => (default, a.mistyped field "boolean" (jsTypeName v))

def finish (a : Args) : Except String Unit :=
  if a.issues.isEmpty then .ok () else .error (String.intercalate ", " a.issues)

end Args

/-- The wrapper around a failed parse. -/
def validationError (tool joined : String) : String :=
  "Input validation error: Invalid arguments for tool " ++ tool ++ ": " ++ joined

/-! ## Handlers -/

inductive Call where
  | string (field : String)
  | requiredString (field : String)
  | enumDefault (field : String) (options : List String) (default : String)
  | optionalEnum (field : String) (options : List String)
  | requiredEnum (field : String) (options : List String)
  | intDefault (field : String) (min : ℤ) (max : Option ℤ) (default : ℤ)
  | optionalInt (field : String)
  | nullishInt (field : String) (min : ℤ) (max : Option ℤ)
  | booleanDefault (field : String) (default : Bool)

inductive Answer where
  | text (s : Option String)
  | int (n : Option ℤ)
  | flag (b : Bool)

def Call.run : Call → Args → Answer × Args
  | string field, a => (.text (a.string field).1, (a.string field).2)
  | requiredString field, a => (.text (a.requiredString field).1, (a.requiredString field).2)
  | enumDefault field options default, a =>
    (.text (some (a.enumDefault field options default).1), (a.enumDefault field options default).2)
  | optionalEnum field options, a =>
    (.text (a.optionalEnum field options).1, (a.optionalEnum field options).2)
  | requiredEnum field options, a =>
    (.text (a.requiredEnum field options).1, (a.requiredEnum field options).2)
  | intDefault field min max default, a =>
    (.int (some (a.intDefault field min max default).1), (a.intDefault field min max default).2)
  | optionalInt field, a => (.int (a.optionalInt field).1, (a.optionalInt field).2)
  | nullishInt field min max, a =>
    (.int (a.nullishInt field min max).1, (a.nullishInt field min max).2)
  | booleanDefault field default, a =>
    (.flag (a.booleanDefault field default).1, (a.booleanDefault field default).2)

/-- What a handler reads, each call after the answers to those before. -/
inductive Handler where
  | done
  | read (call : Call) (next : Answer → Handler)

/-- The calls that were made with their answers, and the arguments in the end. -/
def Handler.run : Handler → Args → List (Call × Answer) × Args
  | done, a => ([], a)
  | read call next, a =>
    let rest := (next (call.run a).1).run (call.run a).2
    ((call, (call.run a).1) :: rest.1, rest.2)

/-! ## What was supplied -/

/-- What a call declares about an integer field. -/
structure Declared where
  field : String
  nullable : Bool
  min : Option ℤ
  max : Option ℤ
  default : Option ℤ

namespace Declared

def Within (d : Declared) (n : ℤ) : Prop := (∀ m ∈ d.min, m ≤ n) ∧ ∀ m ∈ d.max, n ≤ m

def Absent (d : Declared) (a : Args) : Prop :=
  a.field? d.field = none ∨ d.nullable = true ∧ a.field? d.field = some .null

/-- The field is a number that equals the integer, within the bounds. -/
def Supplies (d : Declared) (a : Args) (n : ℤ) : Prop :=
  ∃ k, a.field? d.field = some (.number k) ∧ k.value = some (n : ℚ) ∧ d.Within n

/-- An integer, within the bounds where it is returned. -/
def Admits (d : Declared) (v : Value) : Prop :=
  ∃ k, v = .number k ∧ jsonNumberIsInteger k = true ∧ ∀ n ∈ jsonNumberAsInteger k, d.Within n

/-- The field is a number too large to be returned, and not the default either. -/
def Lost (d : Declared) (a : Args) : Prop :=
  ∃ k, a.field? d.field = some (.number k) ∧ TooLarge k ∧ ¬ ∃ n ∈ d.default, d.Supplies a n

end Declared

def Call.declared : Call → Option Declared
  | intDefault field min max default => some ⟨field, false, some min, max, some default⟩
  | optionalInt field => some ⟨field, false, none, none, none⟩
  | nullishInt field min max => some ⟨field, true, some min, max, none⟩
  | _ => none

/-- An integer is the default of an absent field or the number that was supplied. -/
def Faithful (a : Args) (call : Call) (answer : Answer) : Prop :=
  ∀ d ∈ call.declared,
    d.Absent a ∧ answer = .int d.default ∨ ∃ n, answer = .int (some n) ∧ d.Supplies a n

/-- The field is as the schema of the call says. -/
def Conforms (a : Args) : Call → Prop
  | .string field => ∀ v ∈ a.field? field, ∃ s, v = .string s
  | .requiredString field => ∃ s, a.field? field = some (.string s)
  | .enumDefault field options _ => ∀ v ∈ a.field? field, ∃ s ∈ options, v = .string s
  | .optionalEnum field options => ∀ v ∈ a.field? field, ∃ s ∈ options, v = .string s
  | .requiredEnum field options => ∃ s ∈ options, a.field? field = some (.string s)
  | .booleanDefault field _ => ∀ v ∈ a.field? field, ∃ b, v = .bool b
  | call => ∀ d ∈ call.declared, d.Absent a ∨ ∃ v ∈ a.field? d.field, d.Admits v

/-- What reading a supplied value does. -/
inductive Reading (d : Declared) (fields : Option (List (String × Value))) (v : Value) :
    Option ℤ × Args → Prop where
  | exact {k : JsonNumber JsNumber} {n : ℤ} : v = .number k → jsonNumberIsInteger k = true →
    jsonNumberAsInteger k = some n → d.Within n → Reading d fields v (some n, ⟨fields, []⟩)
  | lost {k : JsonNumber JsNumber} : v = .number k → jsonNumberIsInteger k = true →
    jsonNumberAsInteger k = none → Reading d fields v (none, ⟨fields, []⟩)
  | refused {i : String} : ¬ d.Admits v → Reading d fields v (none, ⟨fields, [i]⟩)

/-! ## What a call adds -/

/-- The answer depends on the fields alone, and the issues are added to those before. -/
def Local {α : Type} (f : Args → α × Args) : Prop :=
  ∀ a : Args, f a = ((f ⟨a.obj, []⟩).1, ⟨a.obj, a.issues ++ (f ⟨a.obj, []⟩).2.issues⟩)

section Local

variable {α β : Type}

theorem local_const (x : α) : Local fun a => (x, a) := fun a => by simp

theorem local_issue (x : α) (field message : String) : Local fun a => (x, a.issue field message) :=
  fun a => by simp [Args.issue]

theorem field?_mk (a : Args) (field : String) (issues : List String) :
    (⟨a.obj, issues⟩ : Args).field? field = a.field? field := rfl

theorem Local.obj {f : Args → α × Args} (h : Local f) (a : Args) : (f a).2.obj = a.obj := by
  rw [h a]

theorem local_bind {f : Args → α × Args} {g : α → Args → β × Args} (hf : Local f)
    (hg : ∀ x, Local (g x)) : Local fun a => g (f a).1 (f a).2 := by
  intro a
  have hobj := hf.obj ⟨a.obj, []⟩
  dsimp only at hobj ⊢
  rw [hf a]
  dsimp only
  rw [hg _ ⟨a.obj, a.issues ++ _⟩, hg _ (f ⟨a.obj, []⟩).2, hobj]
  dsimp only
  rw [List.append_assoc]

theorem local_map {f : Args → α × Args} (g : α → β) (h : Local f) :
    Local fun a => (g (f a).1, (f a).2) :=
  local_bind h fun x => local_const (g x)

theorem local_option (field : String) (options : List String) (v : Value) :
    Local (Args.option field options v) := by
  cases v with
  | string s =>
    unfold Args.option
    dsimp only
    split
    · exact local_const _
    · exact local_issue _ _ _
  | _ => exact local_issue _ _ _

theorem local_intValue (field : String) (v : Value) : Local (Args.intValue field v) := by
  cases v with
  | number n =>
    unfold Args.intValue
    dsimp only
    split
    · exact local_const _
    · exact local_issue _ _ _
  | _ => exact local_issue _ _ _

theorem local_bounded (field : String) (min : ℤ) (max : Option ℤ) (value : ℤ) :
    Local (Args.bounded field min max value) := by
  unfold Args.bounded
  split
  · exact local_issue _ _ _
  · cases max with
    | none => exact local_const _
    | some max =>
      dsimp only
      split
      · exact local_issue _ _ _
      · exact local_const _

theorem local_boundedInt (field : String) (min : ℤ) (max : Option ℤ) (v : Value) :
    Local (Args.boundedInt field min max v) := by
  have hbind := local_bind (local_intValue field v) (g := fun value a => match value with
    | none => (none, a)
    | some value => Args.bounded field min max value a) fun value => by
      cases value with
      | none => exact local_const _
      | some value => exact local_bounded field min max value
  have hsame : Args.boundedInt field min max v = fun a => match (Args.intValue field v a).1 with
      | none => (none, (Args.intValue field v a).2)
      | some value => Args.bounded field min max value (Args.intValue field v a).2 := by
    funext a
    unfold Args.boundedInt
    rcases Args.intValue field v a with ⟨_ | value, b⟩ <;> rfl
  rw [hsame]
  exact hbind

theorem local_string (field : String) : Local (Args.string field) := by
  intro a
  unfold Args.string
  rw [field?_mk a field []]
  rcases a.field? field with _ | v
  · exact local_const _ a
  · cases v with
    | string s => exact local_const _ a
    | _ => exact local_issue _ _ _ a

theorem local_requiredString (field : String) : Local (Args.requiredString field) := by
  intro a
  unfold Args.requiredString
  rw [field?_mk a field []]
  cases a.field? field with
  | none => exact local_issue _ _ _ a
  | some v => exact local_string field a

theorem local_enumDefault (field : String) (options : List String) (default : String) :
    Local (Args.enumDefault field options default) := by
  intro a
  unfold Args.enumDefault
  rw [field?_mk a field []]
  cases a.field? field with
  | none => exact local_const _ a
  | some v => exact local_map (·.getD default) (local_option field options v) a

theorem local_optionalEnum (field : String) (options : List String) :
    Local (Args.optionalEnum field options) := by
  intro a
  unfold Args.optionalEnum
  rw [field?_mk a field []]
  cases a.field? field with
  | none => exact local_const _ a
  | some v => exact local_option field options v a

theorem local_requiredEnum (field : String) (options : List String) :
    Local (Args.requiredEnum field options) := by
  intro a
  unfold Args.requiredEnum
  rw [field?_mk a field []]
  cases a.field? field with
  | none => exact local_issue _ _ _ a
  | some v => exact local_option field options v a

theorem local_intDefault (field : String) (min : ℤ) (max : Option ℤ) (default : ℤ) :
    Local (Args.intDefault field min max default) := by
  intro a
  unfold Args.intDefault
  rw [field?_mk a field []]
  cases a.field? field with
  | none => exact local_const _ a
  | some v => exact local_map (·.getD default) (local_boundedInt field min max v) a

theorem local_optionalInt (field : String) : Local (Args.optionalInt field) := by
  intro a
  unfold Args.optionalInt
  rw [field?_mk a field []]
  rcases a.field? field with _ | v
  · exact local_const _ a
  · cases v with
    | null => exact local_issue _ _ _ a
    | _ => exact local_intValue field _ a

theorem local_nullishInt (field : String) (min : ℤ) (max : Option ℤ) :
    Local (Args.nullishInt field min max) := by
  intro a
  unfold Args.nullishInt
  rw [field?_mk a field []]
  rcases a.field? field with _ | v
  · exact local_const _ a
  · cases v with
    | null => exact local_const _ a
    | _ => exact local_boundedInt field min max _ a

theorem local_booleanDefault (field : String) (default : Bool) :
    Local (Args.booleanDefault field default) := by
  intro a
  unfold Args.booleanDefault
  rw [field?_mk a field []]
  rcases a.field? field with _ | v
  · exact local_const _ a
  · cases v with
    | bool b => exact local_const _ a
    | _ => exact local_issue _ _ _ a

theorem local_run (call : Call) : Local call.run := by
  cases call with
  | string field => exact local_map Answer.text (local_string field)
  | requiredString field => exact local_map Answer.text (local_requiredString field)
  | enumDefault field options default =>
    exact local_map (Answer.text ∘ some) (local_enumDefault field options default)
  | optionalEnum field options => exact local_map Answer.text (local_optionalEnum field options)
  | requiredEnum field options => exact local_map Answer.text (local_requiredEnum field options)
  | intDefault field min max default =>
    exact local_map (Answer.int ∘ some) (local_intDefault field min max default)
  | optionalInt field => exact local_map Answer.int (local_optionalInt field)
  | nullishInt field min max => exact local_map Answer.int (local_nullishInt field min max)
  | booleanDefault field default => exact local_map Answer.flag (local_booleanDefault field default)

end Local

/-! ## Integers that were read -/

section Reading

variable (fields : Option (List (String × Value)))

theorem reading_intValue (field : String) (v : Value) (default : Option ℤ) (nullable : Bool) :
    Reading ⟨field, nullable, none, none, default⟩ fields v
      (Args.intValue field v ⟨fields, []⟩) := by
  cases v with
  | number k =>
    by_cases hk : jsonNumberIsInteger k = true
    · simp only [Args.intValue, if_pos hk]
      cases hn : jsonNumberAsInteger k with
      | none => exact .lost rfl hk hn
      | some n => exact .exact rfl hk hn ⟨by simp, by simp⟩
    · simp only [Args.intValue, if_neg hk]
      apply Reading.refused
      rintro ⟨_, ⟨⟩, h, -⟩
      exact hk h
  | _ =>
    apply Reading.refused
    rintro ⟨_, ⟨⟩, -⟩

theorem reading_bounded {d : Declared} {v : Value} {k : JsonNumber JsNumber} {n : ℤ} {min : ℤ}
    (hmin : d.min = some min) (hv : v = .number k) (hk : jsonNumberIsInteger k = true)
    (hn : jsonNumberAsInteger k = some n) :
    Reading d fields v (Args.bounded d.field min d.max n ⟨fields, []⟩) := by
  have hrefused (h : ¬ d.Within n) : ¬ d.Admits v := by
    rintro ⟨k', hk', -, hall⟩
    cases hv.symm.trans hk'
    exact h (hall n hn)
  unfold Args.bounded
  split
  · rename_i hlow
    apply Reading.refused
    apply hrefused
    rintro ⟨hwithin, -⟩
    exact absurd (hwithin min hmin) (not_le.mpr hlow)
  · rename_i hlow
    cases hmax : d.max with
    | none =>
      refine .exact hv hk hn ⟨?_, by simp [hmax]⟩
      intro m hm
      cases hmin.symm.trans hm
      exact not_lt.mp hlow
    | some max =>
      dsimp only
      split
      · rename_i hhigh
        apply Reading.refused
        apply hrefused
        rintro ⟨-, hwithin⟩
        exact absurd (hwithin max hmax) (not_le.mpr hhigh)
      · rename_i hhigh
        refine .exact hv hk hn ⟨?_, ?_⟩
        · intro m hm
          cases hmin.symm.trans hm
          exact not_lt.mp hlow
        · intro m hm
          cases hmax.symm.trans hm
          exact not_lt.mp hhigh

theorem reading_boundedInt {d : Declared} {min : ℤ} (hmin : d.min = some min) (v : Value) :
    Reading d fields v (Args.boundedInt d.field min d.max v ⟨fields, []⟩) := by
  have hread := reading_intValue fields d.field v none false
  unfold Args.boundedInt
  revert hread
  generalize Args.intValue d.field v ⟨fields, []⟩ = r
  intro hread
  cases hread with
  | exact hv hk hn _ => exact reading_bounded fields hmin hv hk hn
  | lost hv hk hn => exact .lost hv hk hn
  | refused h =>
    apply Reading.refused
    rintro ⟨k, hv, hk, -⟩
    exact h ⟨k, hv, hk, fun _ _ => ⟨by simp, by simp⟩⟩

/-- A call for an integer answers with the default, or with what it read. -/
theorem run_declared {call : Call} {d : Declared} (hd : call.declared = some d) :
    (d.Absent ⟨fields, []⟩ ∧ call.run ⟨fields, []⟩ = (.int d.default, ⟨fields, []⟩)) ∨
    ∃ v r, (⟨fields, []⟩ : Args).field? d.field = some v ∧ ¬ d.Absent ⟨fields, []⟩ ∧
      Reading d fields v r ∧ call.run ⟨fields, []⟩ = (.int (r.1.or d.default), r.2) := by
  cases call with
  | intDefault field min max default =>
    cases hd
    cases hv : (⟨fields, []⟩ : Args).field? field with
    | none => exact .inl ⟨.inl hv, by simp [Call.run, Args.intDefault, hv]⟩
    | some v =>
      refine .inr ⟨v, _, rfl, ?_, reading_boundedInt fields rfl v, ?_⟩
      · simp [Declared.Absent, hv]
      · cases hr : Args.boundedInt field min max v ⟨fields, []⟩ with
        | mk r b => cases r <;> simp [Call.run, Args.intDefault, hv, hr]
  | optionalInt field =>
    cases hd
    cases hv : (⟨fields, []⟩ : Args).field? field with
    | none => exact .inl ⟨.inl hv, by simp [Call.run, Args.optionalInt, hv]⟩
    | some v =>
      refine .inr ⟨v, _, rfl, ?_, reading_intValue fields field v none false, ?_⟩
      · simp [Declared.Absent, hv]
      · cases v <;> simp [Call.run, Args.optionalInt, hv, Args.intValue, jsTypeName]
  | nullishInt field min max =>
    cases hd
    cases hv : (⟨fields, []⟩ : Args).field? field with
    | none => exact .inl ⟨.inl hv, by simp [Call.run, Args.nullishInt, hv]⟩
    | some v =>
      by_cases hnull : v = .null
      · subst hnull
        exact .inl ⟨.inr ⟨rfl, hv⟩, by simp [Call.run, Args.nullishInt, hv]⟩
      · refine .inr ⟨v, _, rfl, ?_, reading_boundedInt fields rfl v, ?_⟩
        · simp [Declared.Absent, hv, hnull]
        · cases v <;> simp_all [Call.run, Args.nullishInt]
  | _ => cases hd

end Reading

/-! ## A whole handler -/

theorem conforms_declared {call : Call} {d : Declared} (hd : call.declared = some d) (a : Args) :
    Conforms a call ↔ d.Absent a ∨ ∃ v ∈ a.field? d.field, d.Admits v := by
  cases call with
  | intDefault | optionalInt | nullishInt =>
    simp only [Conforms, Option.mem_def, hd, Option.some.injEq, forall_eq']
  | _ => cases hd

theorem Reading.issues {d : Declared} {fields : Option (List (String × Value))} {v : Value}
    {r : Option ℤ × Args} (h : Reading d fields v r) : r.2.issues = [] ↔ d.Admits v := by
  cases h with
  | exact hv hk hn hwithin =>
    refine iff_of_true rfl ⟨_, hv, hk, ?_⟩
    intro m hm
    cases hn.symm.trans hm
    exact hwithin
  | lost hv hk hn => exact iff_of_true rfl ⟨_, hv, hk, by simp [hn]⟩
  | refused h => exact iff_of_false (by simp) h

theorem issues_option (fields : Option (List (String × Value))) (field : String)
    (options : List String) (v : Value) :
    (Args.option field options v ⟨fields, []⟩).2.issues = [] ↔ ∃ s ∈ options, v = .string s := by
  cases v with
  | string s =>
    by_cases h : s ∈ options <;> simp [Args.option, h, Args.invalidOption, Args.issue]
  | _ => simp [Args.option, Args.invalidOption, Args.issue]

/-- A call reports no issue on the fields that the schema admits, and on no others. -/
theorem issues_run (call : Call) (a : Args) :
    (call.run ⟨a.obj, []⟩).2.issues = [] ↔ Conforms a call := by
  have hissue (field message : String) : (Args.issue field message ⟨a.obj, []⟩).issues ≠ [] := by
    simp [Args.issue]
  cases hd : call.declared with
  | some d =>
    rw [conforms_declared hd]
    rcases run_declared a.obj hd with ⟨habsent, hrun⟩ | ⟨v, r, hv, habsent, hread, hrun⟩
    · rw [hrun]
      exact iff_of_true rfl (.inl habsent)
    · rw [hrun, hread.issues]
      constructor
      · exact fun h => .inr ⟨v, hv, h⟩
      · rintro (h | ⟨w, hw, h⟩)
        · exact absurd h habsent
        · cases hv.symm.trans hw
          exact h
  | none =>
    cases call with
    | string field =>
      simp only [Call.run, Args.string, field?_mk a field [], Conforms]
      rcases a.field? field with _ | v
      · simp
      · cases v <;> simp [Args.mistyped, hissue]
    | requiredString field =>
      simp only [Call.run, Args.requiredString, Args.string, field?_mk a field [], Conforms]
      rcases a.field? field with _ | v
      · simp [Args.mistyped, hissue]
      · cases v <;> simp [Args.mistyped, hissue]
    | enumDefault field options default =>
      simp only [Call.run, Args.enumDefault, field?_mk a field [], Conforms]
      cases a.field? field with
      | none => simp
      | some v => simp [issues_option]
    | optionalEnum field options =>
      simp only [Call.run, Args.optionalEnum, field?_mk a field [], Conforms]
      cases a.field? field with
      | none => simp
      | some v => simp [issues_option]
    | requiredEnum field options =>
      simp only [Call.run, Args.requiredEnum, field?_mk a field [], Conforms]
      cases a.field? field with
      | none => simp [Args.invalidOption, hissue]
      | some v => simp [issues_option]
    | booleanDefault field default =>
      simp only [Call.run, Args.booleanDefault, field?_mk a field [], Conforms]
      rcases a.field? field with _ | v
      · simp
      · cases v <;> simp [Args.mistyped, hissue]
    | _ => cases hd

/-- What a call without an issue answers. -/
theorem faithful_run {call : Call} {a : Args} (h : Conforms a call) :
    Faithful a call (call.run ⟨a.obj, []⟩).1 ↔ ∀ d ∈ call.declared, ¬ d.Lost a := by
  unfold Faithful
  refine forall₂_congr fun d hd => ?_
  have hconforms := (conforms_declared hd a).mp h
  rcases run_declared a.obj hd with ⟨habsent, hrun⟩ | ⟨v, r, hv, habsent, hread, hrun⟩
  · rw [hrun]
    refine iff_of_true (.inl ⟨habsent, rfl⟩) ?_
    rintro ⟨k, hk, -⟩
    rcases habsent with hnone | ⟨-, hnull⟩
    · cases hnone.symm.trans hk
    · cases hnull.symm.trans hk
  · rw [hrun]
    have hnot : ¬ (d.Absent a ∧ Answer.int (r.1.or d.default) = .int d.default) :=
      fun h => habsent h.1
    rw [or_iff_right hnot]
    cases hread with
    | exact hk hint hn hwithin =>
      rename_i k n
      subst hk
      have hlarge : ¬ TooLarge k := by
        rw [← jsonNumberAsInteger_eq_none hint, hn]
        simp
      refine iff_of_true ⟨n, rfl, k, hv, jsonNumberAsInteger_value hn hlarge, hwithin⟩ ?_
      rintro ⟨k', hk', hlost, -⟩
      cases hv.symm.trans hk'
      exact hlarge hlost
    | lost hk hint hn =>
      rename_i k
      subst hk
      have hlarge := (jsonNumberAsInteger_eq_none hint).mp hn
      constructor
      · rintro ⟨n, hanswer, hsupplied⟩ ⟨_, -, -, hdefault⟩
        apply hdefault
        refine ⟨n, ?_, hsupplied⟩
        simpa using hanswer
      · intro hlost
        by_contra hcontra
        apply hlost
        refine ⟨k, hv, hlarge, ?_⟩
        rintro ⟨n, hn, hsupplied⟩
        exact hcontra ⟨n, by rw [Option.mem_def.mp hn]; rfl, hsupplied⟩
    | refused hrefused =>
      rcases hconforms with h | ⟨w, hw, h⟩
      · exact absurd h habsent
      · cases hv.symm.trans hw
        exact absurd h hrefused

/-- Each answer is that of the call on its own, and the issues are those of the calls. -/
theorem run_answers (h : Handler) (a : Args) :
    (∀ x ∈ (h.run a).1, x.2 = (x.1.run ⟨a.obj, []⟩).1) ∧
    ((h.run a).2.issues = [] ↔ a.issues = [] ∧ ∀ x ∈ (h.run a).1, Conforms a x.1) := by
  induction h generalizing a with
  | done => simp [Handler.run]
  | read call next ih =>
    have hcall := local_run call a
    obtain ⟨hanswers, hissues⟩ := ih (call.run a).1 (call.run a).2
    have hobj : (call.run a).2.obj = a.obj := (local_run call).obj a
    rw [hobj] at hanswers
    have hconforms (c : Call) : Conforms (call.run a).2 c ↔ Conforms a c := by
      rw [← issues_run c (call.run a).2, ← issues_run c a, hobj]
    have hown : (call.run a).2.issues = [] ↔ a.issues = [] ∧ Conforms a call := by
      rw [hcall, List.append_eq_nil_iff, issues_run]
    constructor
    · intro x hx
      rcases List.mem_cons.mp hx with rfl | hx
      · have hown : (call.run a).1 = _ := congrArg Prod.fst hcall
        exact hown
      · exact hanswers x hx
    · simp only [Handler.run, List.forall_mem_cons]
      rw [hissues, hown, and_assoc]
      simp only [hconforms]

theorem finish_eq_ok (a : Args) : a.finish = .ok () ↔ a.issues = [] := by
  unfold Args.finish
  cases a.issues <;> simp

/-- A handler that finishes has read its integers as they were supplied, exactly when no field that
conforms to the schema is a number too large to be returned. -/
theorem integers_faithful_iff (h : Handler) (v : Value) :
    ((h.run (Args.new v)).2.finish = .ok () →
      ∀ x ∈ (h.run (Args.new v)).1, Faithful (Args.new v) x.1 x.2) ↔
    ((∀ x ∈ (h.run (Args.new v)).1, Conforms (Args.new v) x.1) →
      ∀ x ∈ (h.run (Args.new v)).1, ∀ d ∈ x.1.declared, ¬ d.Lost (Args.new v)) := by
  obtain ⟨hanswers, hissues⟩ := run_answers h (Args.new v)
  have hnew : (Args.new v).issues = [] := by cases v <;> rfl
  rw [finish_eq_ok, hissues, and_iff_right hnew]
  refine imp_congr_right fun hconforms => forall₂_congr fun x hx => ?_
  rw [hanswers x hx]
  exact faithful_run (hconforms x hx)

/-- `limit` as an endpoint reads it. -/
def readLimit : Handler := .read (.intDefault "limit" 1 (some 20) 5) fun _ => .done

/-- A limit of `2 ^ 60` is read as the default of five. -/
theorem limit_not_faithful :
    ¬ (((readLimit.run (Args.new (.object [("limit", .number (.float (.finite (2 ^ 60))))]))).2.finish
        = .ok ()) →
      ∀ x ∈ (readLimit.run (Args.new (.object [("limit", .number (.float (.finite (2 ^ 60))))]))).1,
        Faithful (Args.new (.object [("limit", .number (.float (.finite (2 ^ 60))))])) x.1 x.2) := by
  intro h
  have hrun : readLimit.run (Args.new (.object [("limit", .number (.float (.finite (2 ^ 60))))])) =
      ([(.intDefault "limit" 1 (some 20) 5, .int (some 5))],
        Args.new (.object [("limit", .number (.float (.finite (2 ^ 60))))])) := by
    rfl
  rw [hrun] at h
  rcases h rfl _ (List.mem_singleton_self _) _ rfl with ⟨habsent, -⟩ | ⟨n, hanswer, k, hk, hvalue, -⟩
  · rcases habsent with habsent | ⟨habsent, -⟩ <;> cases habsent
  · cases hanswer
    cases hk
    norm_num [JsonNumber.value] at hvalue

end Zodish

end PrtsMcp
