import Runbook.Proofs.Condition.Integer
import Runbook.Proofs.Decimal.Value
import Runbook.Proofs.Template.Reference

/-!
# The filters to numbers

The filters `int` and `float` read a value as conditions do (`asNumber_ofJson`): an integer as the
double nearest to it, a text as the double that its decimal notation stands for. The text of an
integer of 64 bits is the one thing that `int` reads without a double in between
(`int_integerText`). Of any other number it gives the whole part of the double, brought into the
64-bit range (`int_number`), and so an integer that no double stands for comes back as another one
and what is no number at all as one. `float` has null for that (`float_number`).
-/

namespace Runbook.Template

open Decimal

variable {fs : Fields} {v : Json} {name : String} {n : ℤ} {q : ℚ} {y : Float}
  {lead trail : List Char}

/-! ## Texts of integers -/

/-- The text of an integer has no blanks. -/
theorem tight_toString (n : ℤ) : Text.Tight (toString n).toList := by
  have hblank : ∀ c ∈ (toString n).toList, Text.isBlank c = false := by
    have hdigit (k : ℕ) : ∀ c ∈ Nat.toDigits 10 k, Text.isBlank c = false := fun c hc => by
      have hge : 48 ≤ c.toNat :=
        (Char.isDigit_iff_toNat.1 (isDigit_of_natOfDigits? (natOfDigits?_toDigits k) c hc)).1
      have hle : c.toNat ≤ 57 :=
        (Char.isDigit_iff_toNat.1 (isDigit_of_natOfDigits? (natOfDigits?_toDigits k) c hc)).2
      simp [Text.isBlank]
      omega
    rcases toList_toString n with ⟨k, -, hs⟩ | ⟨k, -, -, hs⟩
    · rw [hs]
      exact hdigit k
    · rw [hs]
      exact List.forall_mem_cons.2 ⟨by decide, hdigit k⟩
  exact ⟨fun c hc => hblank c (List.mem_of_mem_head? hc),
    fun c hc => hblank c (List.mem_of_getLast? hc)⟩

/-- The text of an integer between blanks. -/
theorem trim_toString (hl : ∀ c ∈ lead, Text.isBlank c = true)
    (ht : ∀ c ∈ trail, Text.isBlank c = true) (n : ℤ) :
    Text.trim (String.ofList (lead ++ (toString n).toList ++ trail)) = toString n := by
  rw [Text.trim, String.toList_ofList, Text.trimChars_between hl ht (tight_toString n),
    String.ofList_toList]

/-! ## What the filters read -/

/-- The filters read a value as conditions do. -/
theorem asNumber_ofJson (hv : v.Proper) :
    (∀ y, Condition.number? v = some y → (Value.ofJson v).asNumber = .ok y) ∧
      (Condition.number? v = none → ∃ f, (Value.ofJson v).asNumber = .error f) := by
  unfold Value.asNumber
  rw [Value.toJson_ofJson v hv]
  unfold Condition.number?
  cases v with
  | str s => cases hs : double? (Text.trim s) <;> simp [hs]
  | _ => simp [Value.intToFloat]

/-- The integer of 64 bits that a value has as its text, blanks at its ends aside. -/
def integerText? : Json → Option ℤ
  | .str s => int64? (Text.trim s).toList
  | _ => none

theorem toInteger_integerText (h : integerText? v = some n) :
    (Value.ofJson v).toInteger = .ok (.int n) := by
  cases v with
  | str s =>
    rw [integerText?] at h
    rw [Value.ofJson, Value.toInteger]
    simp [h]
  | _ => cases h

theorem toInteger_other (h : integerText? v = none) :
    (Value.ofJson v).toInteger = (Value.ofJson v).asNumber.map fun x => .int (toInt64 x) := by
  cases v with
  | str s =>
    rw [integerText?] at h
    rw [Value.ofJson, Value.toInteger]
    simp [h]
  | _ => rfl

/-! ## A path with a filter -/

namespace Path

variable (p : Path)

/-- A path with a filter, as it is written. -/
def filteredText (name : String) : String :=
  String.ofList (p.chars ++ (' ' :: '|' :: ' ' :: name.toList))

/-- A path with a filter in double braces. -/
def filtered (name : String) : String := "\x7b\x7b " ++ p.filteredText name ++ " \x7d\x7d"

variable (hname : isName name = true)
include hname

/-- The last character belongs to the name of the filter. -/
theorem mem_of_getLast?_filtered {c : Char}
    (hc : c ∈ (p.chars ++ (' ' :: '|' :: ' ' :: name.toList)).getLast?) : c ∈ name.toList := by
  rw [show p.chars ++ (' ' :: '|' :: ' ' :: name.toList) =
      p.chars ++ [' ', '|', ' '] ++ name.toList by simp,
    List.getLast?_append_of_ne_nil _ (toList_ne_nil_of_isName hname)] at hc
  exact List.mem_of_getLast? hc

theorem ofExpression_filteredText : Token.ofExpression (p.filteredText name) =
    p.tokens ++ [.sign "|", .ident name] := by
  have hlength := List.length_pos_iff.2 (toList_ne_nil_of_isName hname)
  have hend : Token.dropLineEnd (p.chars ++ (' ' :: '|' :: ' ' :: name.toList)) =
      p.chars ++ (' ' :: '|' :: ' ' :: name.toList) :=
    Token.dropLineEnd_eq_self fun c hc => by
      have := toNat_of_isName hname (p.mem_of_getLast?_filtered hname hc)
      constructor <;> rintro rfl <;> revert this <;> decide
  obtain ⟨fuel, hfuel⟩ : ∃ fuel, (p.chars ++ (' ' :: '|' :: ' ' :: name.toList)).length + 1 =
      fuel + 1 + 1 + p.tokens.length := by
    have := p.length_tokens_le
    refine ⟨p.chars.length + name.toList.length + 2 - p.tokens.length, ?_⟩
    simp only [List.length_append, List.length_cons]
    omega
  have hnil : Token.scan fuel (.output 0) [] = [] := by
    cases fuel with
    | zero => rfl
    | succ fuel => exact Token.scan_blank rfl
  have hnamed : Token.scan (fuel + 1) (.output 0) (name.toList ++ []) =
      .ident name :: Token.scan fuel (.output 0) [] := Token.scan_name hname nofun
  rw [List.append_nil, hnil] at hnamed
  rw [Token.ofExpression, filteredText, String.toList_ofList, hend, hfuel,
    Token.scan_path p (by simp [Token.isNameRest, Char.isAlphanum, Char.isAlpha]),
    Token.scan_space rfl, Token.scan_sign (by simp), Token.scan_space rfl, hnamed]

/-- **A path with a filter** parses to the filter of its expression. -/
theorem parse_filteredText :
    Expr.parse (p.filteredText name) = .ok (.filter p.expr name []) := by
  have hstop : Parse.NoPostfix [.sign "|", .ident name] :=
    ⟨rfl, fun _ _ _ => by simp [Parse.postfixes]⟩
  have hsigned (fuel depth : ℕ) : Parse.signed (fuel + p.keys.length + 3) depth
      (p.tokens ++ [.sign "|", .ident name]) = .ok (.filter p.expr name [], []) := by
    rw [Parse.signed_path_append p hstop, Parse.filters]
    exact Parse.filters_end .nil
  obtain ⟨fuel, hfuel⟩ : ∃ f, Parse.fuelFor (p.tokens ++ [.sign "|", .ident name]) =
      f + p.keys.length + 3 + 9 :=
    ⟨Parse.fuelFor (p.tokens ++ [.sign "|", .ident name]) - (p.keys.length + 12), by
      rw [Parse.fuelFor, List.length_append, p.length_tokens]
      omega⟩
  rw [Expr.parse, p.ofExpression_filteredText hname, hfuel, Parse.maxNesting,
    Parse.expr_of_signed (hsigned fuel 149) .nil (Parse.word?_not_path p)]

theorem singleExpression?_filtered :
    singleExpression? (p.filtered name) = some (p.filteredText name) := by
  have hbrace {c : Char} (hc : 122 < c.toNat) (hbar : c ≠ '|') :
      c ∉ p.chars ++ (' ' :: '|' :: ' ' :: name.toList) := by
    intro hm
    rcases List.mem_append.1 hm with hm | hm
    · exact p.not_mem_chars hc hm
    · simp only [List.mem_cons, hbar, false_or] at hm
      rcases hm with rfl | rfl | hm
      · revert hc
        decide
      · revert hc
        decide
      · have := toNat_of_isName hname hm
        omega
  refine singleExpression?_spaced (List.append_ne_nil_of_left_ne_nil p.chars_ne_nil _)
    ⟨fun c hc => ?_, fun c hc => ?_⟩ (hbrace (by decide) (by decide))
    (hbrace (by decide) (by decide))
  · rw [List.head?_append_of_ne_nil _ p.chars_ne_nil] at hc
    exact p.isBlank_chars (List.mem_of_mem_head? hc)
  · have := toNat_of_isName hname (p.mem_of_getLast?_filtered hname hc)
    simp [Text.isBlank]
    omega

end Path

/-- A filtered path stands for what the filter makes of the value that the path finds. -/
theorem resolve_filtered {p : Path} {j : Json} {w : Value} (hname : isName name = true)
    (hp : p.find? fs = some v) (hw : (Value.ofJson v).filter name [] = .ok w)
    (hdefined : w.isUndefined = false) (hj : w.toJson = .ok j) :
    resolve (.obj fs) (.str (p.filtered name)) = .ok j := by
  have hexpr := p.eval_expr fs
  rw [hp] at hexpr
  rw [resolve_eq_lookup (p.singleExpression?_filtered hname), lookup_eq_ok_iff]
  refine ⟨_, w, p.parse_filteredText hname, ?_, hdefined, hj⟩
  rw [Expr.eval, hexpr, evalList]
  exact hw

theorem resolve_filtered_error {p : Path} {f : Fault} (hname : isName name = true)
    (hp : p.find? fs = some v) (hf : (Value.ofJson v).filter name [] = .error f) :
    ∃ message, resolve (.obj fs) (.str (p.filtered name)) = .error (.resolution message) := by
  have hexpr := p.eval_expr fs
  rw [hp] at hexpr
  have heval : (Expr.filter p.expr name []).eval (Env.ofContext (.obj fs)) = .error f := by
    rw [Expr.eval, hexpr, evalList]
    exact hf
  rw [resolve_eq_lookup (p.singleExpression?_filtered hname), lookup, p.parse_filteredText hname]
  dsimp only
  rw [heval]
  exact ⟨_, rfl⟩

/-! ## What the filters give -/

theorem toJson_int (h : minInt64 ≤ n ∧ n ≤ maxInt64) : (Value.int n).toJson = .ok (.int n) := by
  have hfits : Value.fitsJson n = true := by
    unfold minInt64 maxInt64 at h
    simp only [Value.fitsJson, Bool.and_eq_true, decide_eq_true_eq]
    omega
  rw [Value.toJson, if_pos hfits]

section
variable {p : Path} (hp : p.find? fs = some v)
include hp

theorem int_integerText (hn : integerText? v = some n) (hrange : minInt64 ≤ n ∧ n ≤ maxInt64) :
    resolve (.obj fs) (.str (p.filtered "int")) = .ok (.int n) := by
  exact resolve_filtered (by decide) hp (toInteger_integerText hn) rfl (toJson_int hrange)

variable (hv : v.Proper)
include hv

theorem int_number (hnone : integerText? v = none) (hy : Condition.number? v = some y) :
    resolve (.obj fs) (.str (p.filtered "int")) = .ok (.int (toInt64 y)) := by
  have hvalue : (Value.ofJson v).toInteger = .ok (.int (toInt64 y)) := by
    rw [toInteger_other hnone, (asNumber_ofJson hv).1 y hy]
    rfl
  exact resolve_filtered (by decide) hp hvalue rfl (toJson_int (toInt64_mem y))

theorem float_number (hy : Condition.number? v = some y) :
    resolve (.obj fs) (.str (p.filtered "float")) =
      .ok (if (value? y).isSome then .double y else .null) := by
  have hvalue : (Value.ofJson v).filter "float" [] = .ok (.float y) := by
    change ((Value.ofJson v).asNumber).map Value.float = _
    rw [(asNumber_ofJson hv).1 y hy]
    rfl
  refine resolve_filtered (by decide) hp hvalue rfl ?_
  rw [Value.toJson]
  by_cases hfinite : (value? y).isSome = true
  · obtain ⟨hnan, hinf⟩ := value?_isSome.1 hfinite
    rw [if_pos hfinite, hnan, hinf]
    rfl
  · have hspecial : (y.isNaN || y.isInf) = true := by
      by_contra h
      exact hfinite (value?_isSome.2 (by simpa using h))
    rw [if_neg hfinite, hspecial]
    rfl

theorem error_of_no_number (hnone : Condition.number? v = none) (htext : integerText? v = none) :
    (∃ message, resolve (.obj fs) (.str (p.filtered "int")) = .error (.resolution message)) ∧
      ∃ message, resolve (.obj fs) (.str (p.filtered "float")) = .error (.resolution message) := by
  obtain ⟨f, hf⟩ := (asNumber_ofJson hv).2 hnone
  have hint : (Value.ofJson v).filter "int" [] = .error f := by
    change (Value.ofJson v).toInteger = _
    rw [toInteger_other htext, hf]
    rfl
  have hfloat : (Value.ofJson v).filter "float" [] = .error f := by
    change ((Value.ofJson v).asNumber).map Value.float = _
    rw [hf]
    rfl
  exact ⟨resolve_filtered_error (by decide) hp hint, resolve_filtered_error (by decide) hp hfloat⟩

end

/-- The text of an integer of 64 bits is that of a double, too. -/
theorem exists_number?_of_integerText (h : integerText? v = some n) :
    (minInt64 ≤ n ∧ n ≤ maxInt64) ∧ ∃ y, Condition.number? v = some y := by
  cases v with
  | str s =>
    obtain ⟨m, hm, hrange⟩ := Option.bind_eq_some_iff.1 h
    split at hrange
    · rename_i hbounds
      cases hrange
      have hn : minInt64 ≤ n ∧ n ≤ maxInt64 := by simpa using hbounds
      obtain ⟨y, hy, -⟩ := exists_double? hm (by unfold minInt64 maxInt64 at hn; omega)
      exact ⟨hn, y, hy⟩
    · cases hrange
  | _ => cases h

/-- An integer is read as the double nearest to it. -/
theorem value_of_int (h : (Json.int n).Proper) :
    ∃ y, Condition.number? (.int n) = some y ∧ value? y = some (rounded n : ℚ) := by
  rw [Json.Proper] at h
  exact ⟨Float.ofInt n, rfl, (ofInt_standsFor (by omega)).value⟩

/-- **The filters to numbers**, applied to the value that a path finds. To `int`, the text of a
64-bit integer is this integer, whatever blanks are around it, and an integer given as a number is
the rounded one. Of any other number `int` gives the whole part of its double where that fits, else
the end of the range that is nearest, and `float` the double itself; for an infinity and for "not a
number" there is an end of the range or zero, and null. What is no number is a fault. -/
theorem numeric_filters {p : Path} (hp : p.find? fs = some v) (hv : v.Proper) :
    let int := resolve (.obj fs) (.str (p.filtered "int"))
    let float := resolve (.obj fs) (.str (p.filtered "float"))
    (∀ n lead trail, minInt64 ≤ n ∧ n ≤ maxInt64 → (∀ c ∈ lead, Text.isBlank c = true) →
      (∀ c ∈ trail, Text.isBlank c = true) →
      v = .str (String.ofList (lead ++ (toString n).toList ++ trail)) → int = .ok (.int n)) ∧
    (∀ n, v = .int n →
      int = .ok (.int (toRange (rounded n))) ∧ (n.natAbs ≤ 2 ^ 53 → int = .ok (.int n))) ∧
    (∀ y q, integerText? v = none → Condition.number? v = some y → value? y = some q →
      int = .ok (.int (toRange (wholePart q))) ∧
      (minInt64 ≤ wholePart q ∧ wholePart q ≤ maxInt64 → int = .ok (.int (wholePart q)))) ∧
    (∀ y, integerText? v = none → Condition.number? v = some y → value? y = none →
      int = .ok (.int (if y.isNaN then 0 else if isNegative y then minInt64 else maxInt64))) ∧
    (∀ y, Condition.number? v = some y →
      float = .ok (if (value? y).isSome then .double y else .null)) ∧
    (Condition.number? v = none →
      (∃ message, int = .error (.resolution message)) ∧
        ∃ message, float = .error (.resolution message)) := by
  intro int float
  have hvalue (y : Float) (q : ℚ) (htext : integerText? v = none)
      (hy : Condition.number? v = some y) (hq : value? y = some q) :
      int = .ok (.int (toRange (wholePart q))) := by
    rw [← toInt64_of_value hq]
    exact int_number hp hv htext hy
  have hinteger (n : ℤ) (hn : v = .int n) : int = .ok (.int (toRange (rounded n))) := by
    subst hn
    obtain ⟨y, hy, hq⟩ := value_of_int hv
    rw [hvalue y _ rfl hy hq, wholePart_intCast]
  refine ⟨fun n lead trail hn hlead htrail htext => ?_,
    fun n hn => ⟨hinteger n hn, fun hsmall => ?_⟩,
    fun y q htext hy hq => ⟨hvalue y q htext hy hq, fun hrange => ?_⟩,
    fun y htext hy hnone => ?_, fun y hy => float_number hp hv hy, fun hnone => ?_⟩
  · refine int_integerText hp ?_ hn
    rw [htext, integerText?, trim_toString hlead htrail, int64?_toString hn]
  · have hrange : minInt64 ≤ n ∧ n ≤ maxInt64 := by
      unfold minInt64 maxInt64
      omega
    rw [hinteger n hn, rounded_eq_self hsmall, toRange_eq_self hrange]
  · rw [hvalue y q htext hy hq, toRange_eq_self hrange]
  · rw [← toInt64_of_no_value hnone]
    exact int_number hp hv htext hy
  · refine error_of_no_number hp hv hnone ?_
    by_contra htext
    obtain ⟨n, hn⟩ := Option.ne_none_iff_exists'.1 htext
    obtain ⟨-, y, hy⟩ := exists_number?_of_integerText hn
    rw [hnone] at hy
    cases hy

/-- The path `x`. -/
def counterPath : Path := .ofName "x" (by decide) (by decide)

theorem numeric_filters_counter :
    counterPath.filtered "int" = "\x7b\x7b x | int \x7d\x7d" ∧
      counterPath.find? [("x", .str " 42\n")] = some (.str " 42\n") ∧
      (Json.str " 42\n").Proper ∧ (Json.int (-5)).Proper ∧ (Json.bool true).Proper ∧
      resolve (.obj [("x", .str " 42\n")]) (.str (counterPath.filtered "int")) = .ok (.int 42) ∧
      resolve (.obj [("x", .int (-5))]) (.str (counterPath.filtered "int")) = .ok (.int (-5)) ∧
      ∃ message, resolve (.obj [("x", .bool true)]) (.str (counterPath.filtered "float")) =
        .error (.resolution message) := by
  have hint : (Json.int (-5)).Proper := by
    rw [Json.Proper]
    decide
  have hbool : (Json.bool true).Proper := by
    rw [Json.Proper]
    trivial
  exact ⟨by decide, rfl, .str _, hint, hbool,
    (numeric_filters rfl (.str " 42\n")).1 42 [' '] ['\n'] (by decide)
      (List.forall_mem_singleton.2 rfl) (List.forall_mem_singleton.2 rfl) rfl,
    ((numeric_filters rfl hint).2.1 (-5) rfl).2 (by decide),
    ((numeric_filters rfl hbool).2.2.2.2.2 rfl).2⟩

/-- An integer beyond `2 ^ 53` comes back as another one, a number that does not fit as the end of
the range, and what is no number as zero or null. -/
theorem int_filter_rounds :
    counterPath.filtered "int" = "\x7b\x7b x | int \x7d\x7d" ∧
      counterPath.filtered "float" = "\x7b\x7b x | float \x7d\x7d" ∧
      resolve (.obj [("x", .int 9007199254740993)]) (.str (counterPath.filtered "int")) =
        .ok (.int 9007199254740992) ∧
      resolve (.obj [("x", .str "1e30")]) (.str (counterPath.filtered "int")) =
        .ok (.int 9223372036854775807) ∧
      resolve (.obj [("x", .str "nan")]) (.str (counterPath.filtered "int")) = .ok (.int 0) ∧
      resolve (.obj [("x", .str "nan")]) (.str (counterPath.filtered "float")) = .ok .null := by
  have hint : (Json.int 9007199254740993).Proper := by
    rw [Json.Proper]
    decide
  have hlarge : Condition.number? (.str "1e30") = some 1e30 := by decide +kernel
  have hnan : Condition.number? (.str "nan") = some (0.0 / 0.0) := by decide +kernel
  have hrounded : toInt64 (Float.ofInt 9007199254740993) = 9007199254740992 := by decide +kernel
  have hend : toInt64 1e30 = 9223372036854775807 := by decide +kernel
  have hzero : toInt64 (0.0 / 0.0) = 0 := by decide +kernel
  have hnone : (value? (0.0 / 0.0)).isSome = false := by decide +kernel
  refine ⟨by decide, by decide, ?_, ?_, ?_, ?_⟩
  · rw [int_number rfl hint rfl rfl, hrounded]
  · rw [int_number rfl (.str "1e30") (by decide +kernel) hlarge, hend]
  · rw [int_number rfl (.str "nan") (by decide +kernel) hnan, hzero]
  · rw [float_number rfl (.str "nan") hnan, hnone]
    rfl

end Runbook.Template
