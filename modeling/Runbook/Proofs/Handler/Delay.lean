import Mathlib
import Runbook.Handler.Delay
import Runbook.Proofs.Decimal.Value
import Runbook.Proofs.Handler.Seconds

/-!
# The wait that is reported

A `delay` step asks for a time in nanoseconds (`Asks`): for the natural number nearest to that of
its seconds, or for a million for each of its milliseconds. It waits when the seconds are not below
zero and their whole part fits 64 bits (`nanosOf_eq_ok`), so the time may have more milliseconds
than an integer of 64 bits holds. The message says how many there are, and the data has what is left
of them in 64 bits (`waited_ms_exact_iff`).
-/

namespace Runbook

/-! ## Values of decoded records -/

namespace Decode

variable {kind : String} {fields : List Field} {fs found : Fields} {vs : List Json} {v : Json}

theorem fieldsProper_of_inOrder {total i : Nat} (h : inOrder kind total i fields vs = .ok found)
    (hvs : ItemsProper vs) : FieldsProper found := by
  induction fields generalizing i vs found with
  | nil =>
    cases vs <;> cases h <;> trivial
  | cons f fields ih =>
    cases vs with
    | nil =>
      unfold inOrder at h
      split at h
      · exact ih h trivial
      · cases h
    | cons v vs =>
      obtain ⟨_, -, h⟩ := bind_eq_ok.1 h
      obtain ⟨rest, hrest, h⟩ := bind_eq_ok.1 h
      cases h
      rw [ItemsProper] at hvs
      exact ⟨hvs.1, ih hrest hvs.2⟩

theorem fieldsProper_of_known (h : known fields fs = .ok found) (hfs : FieldsProper fs) :
    FieldsProper found := by
  induction fs generalizing found with
  | nil =>
    cases h
    trivial
  | cons e fs ih =>
    obtain ⟨k, v⟩ := e
    rw [FieldsProper] at hfs
    unfold known at h
    split at h
    · exact ih h hfs.2
    · obtain ⟨_, -, h⟩ := bind_eq_ok.1 h
      obtain ⟨more, hmore, h⟩ := bind_eq_ok.1 h
      cases h
      exact ⟨hfs.1, ih hmore hfs.2⟩

/-- The fields of a decoded record have values of the value that it is decoded from. -/
theorem fieldsProper_of_record (h : record kind fields v = .ok found) (hv : v.Proper) :
    FieldsProper found := by
  cases v with
  | arr vs =>
    obtain ⟨found', hfound, h⟩ := bind_eq_ok.1 h
    split at h
    · cases h
    · cases h
      rw [Json.Proper] at hv
      exact fieldsProper_of_inOrder hfound hv
  | obj fs =>
    obtain ⟨found', hfound, h⟩ := bind_eq_ok.1 h
    split at h
    · cases h
    · cases h
      exact fieldsProper_of_known hfound (Json.Proper.obj_iff.1 hv).2
  | _ => cases h

end Decode

namespace Handler.Delay

open Decimal

variable {params : Json} {scope : Scope} {p : Params} {s : Float} {q : ℚ} {m n den : ℕ}

/-! ## The nearest number -/

/-- A natural number is nearest to a rational one; of two that are, the even one. -/
structure Nearest (q : ℚ) (n : ℕ) : Prop where
  near : |q - n| ≤ 1 / 2
  even : |q - n| = 1 / 2 → n % 2 = 0

theorem nearest_of_lt (h : |q - n| < 1 / 2) : Nearest q n := ⟨h.le, fun he => absurd he h.ne⟩

theorem Nearest.not_lt (hm : Nearest q m) (hn : Nearest q n) : ¬m < n := by
  intro hlt
  have hle : (m : ℚ) + 1 ≤ n := by exact_mod_cast hlt
  have hlow := (abs_le.1 hm.near).2
  have hhigh := (abs_le.1 hn.near).1
  -- The number is in the middle between two that follow one another, and those are not both even.
  have hnext : n = m + 1 := by exact_mod_cast (by linarith : (n : ℚ) = m + 1)
  have hmid : q = m + 1 / 2 := by linarith
  have hm2 := hm.even (by rw [hmid]; norm_num)
  have hn2 := hn.even (by rw [hmid, hnext]; push_cast; ring_nf; norm_num)
  omega

theorem Nearest.unique (hm : Nearest q m) (hn : Nearest q n) : m = n :=
  Nat.le_antisymm (Nat.le_of_not_lt (hn.not_lt hm)) (Nat.le_of_not_lt (hm.not_lt hn))

/-- **A quotient is rounded** to the number nearest to it. -/
theorem nearest_roundToEven (num : ℕ) (hden : 0 < den) :
    Nearest ((num : ℚ) / den) (roundToEven num den) := by
  have hpos : (0 : ℚ) < den := by exact_mod_cast hden
  have hsplit : (num : ℚ) / den = (num / den : ℕ) + ((num % den : ℕ) : ℚ) / den := by
    rw [div_eq_iff hpos.ne', add_mul, div_mul_cancel₀ _ hpos.ne']
    exact_mod_cast (Nat.div_add_mod' num den).symm
  have hlow : (0 : ℚ) ≤ ((num % den : ℕ) : ℚ) / den := by positivity
  have hhigh : ((num % den : ℕ) : ℚ) / den < 1 :=
    (div_lt_one hpos).2 (by exact_mod_cast Nat.mod_lt num hden)
  rw [roundToEven, hsplit]
  rcases lt_trichotomy (2 * (num % den)) den with hless | hhalf | hmore
  · have hfrac : ((num % den : ℕ) : ℚ) / den < 1 / 2 := by
      rw [div_lt_div_iff₀ hpos two_pos]
      exact_mod_cast (by omega : num % den * 2 < 1 * den)
    rw [if_pos hless]
    refine nearest_of_lt ?_
    rw [add_sub_cancel_left, abs_lt]
    exact ⟨by linarith, hfrac⟩
  · have hfrac : ((num % den : ℕ) : ℚ) / den = 1 / 2 := by
      rw [div_eq_div_iff hpos.ne' two_ne_zero]
      exact_mod_cast (by omega : num % den * 2 = 1 * den)
    rw [if_neg hhalf.not_lt, if_neg hhalf.not_gt, hfrac]
    split
    · rename_i heven
      refine ⟨?_, fun _ => by simpa using heven⟩
      rw [add_sub_cancel_left, abs_of_pos one_half_pos]
    · rename_i hodd
      have hodd : num / den % 2 ≠ 0 := by simpa using hodd
      refine ⟨?_, fun _ => by omega⟩
      rw [abs_le]
      push_cast
      constructor <;> linarith
  · have hfrac : 1 / 2 < ((num % den : ℕ) : ℚ) / den := by
      rw [div_lt_div_iff₀ two_pos hpos]
      exact_mod_cast (by omega : 1 * den < num % den * 2)
    rw [if_neg (Nat.not_lt.2 hmore.le), if_pos hmore]
    refine nearest_of_lt ?_
    rw [abs_lt]
    push_cast
    constructor <;> linarith

/-! ## The time that is asked for -/

/-- The nanoseconds that are nearest to some seconds. -/
def nearestNanos (s : Float) : ℕ :=
  roundToEven ((exactOfBits s.toBits).num * 1000000000) (exactOfBits s.toBits).den

theorem nearest_nearestNanos (hq : value? s = some q) (hq0 : 0 ≤ q) :
    Nearest (q * 10 ^ 9) (nearestNanos s) := by
  rw [← exactOfBits_eq hq hq0, div_mul_eq_mul_div]
  exact_mod_cast nearest_roundToEven ((exactOfBits s.toBits).num * 10 ^ 9) (exactOfBits_den_pos s)

theorem nanosOf_of_value (hq : value? s = some q) (hq0 : 0 ≤ q) : nanosOf s =
    if nearestNanos s < 2 ^ 64 * 10 ^ 9 then .ok (nearestNanos s) else .error .unrepresentable := by
  have hneg : ¬s < 0.0 := mt (lt_zero_iff hq).1 (not_lt.2 hq0)
  have hfinite : isFinite s = true := isFinite_iff.2 (Option.isSome_of_mem hq)
  have hlimit : Nat.pow 2 64 * 1000000000 = 2 ^ 64 * 10 ^ 9 := by norm_num
  rw [nanosOf, if_neg hneg, hfinite, Bool.not_true, if_neg Bool.false_ne_true, hlimit]
  rfl

theorem exists_value_of_nanosOf (h : nanosOf s = .ok n) : ∃ q, value? s = some q ∧ 0 ≤ q := by
  unfold nanosOf at h
  split at h
  · cases h
  · rename_i hneg
    split at h
    · cases h
    · rename_i hfinite
      obtain ⟨q, hq⟩ := Option.isSome_iff_exists.1 (isFinite_iff.1 (by simpa using hfinite))
      exact ⟨q, hq, not_lt.1 (mt (lt_zero_iff hq).2 hneg)⟩

/-- **Seconds give the nanoseconds** that are nearest to them, when they are not below zero and
their whole part fits 64 bits. -/
theorem nanosOf_eq_ok : nanosOf s = .ok n ↔
    ∃ q, value? s = some q ∧ 0 ≤ q ∧ Nearest (q * 10 ^ 9) n ∧ n < 2 ^ 64 * 10 ^ 9 := by
  constructor
  · intro h
    obtain ⟨q, hq, hq0⟩ := exists_value_of_nanosOf h
    rw [nanosOf_of_value hq hq0] at h
    split at h
    · rename_i hfits
      cases h
      exact ⟨q, hq, hq0, nearest_nearestNanos hq hq0, hfits⟩
    · cases h
  · rintro ⟨q, hq, hq0, hn, hfits⟩
    obtain rfl := hn.unique (nearest_nearestNanos hq hq0)
    rw [nanosOf_of_value hq hq0, if_pos hfits]

/-- The parameters ask for a wait of some nanoseconds: those of their seconds or, when they have
none, of their milliseconds. -/
def Asks (p : Params) (n : ℕ) : Prop :=
  match p.seconds, p.milliseconds with
  | some s, _ => ∃ q, value? s = some q ∧ 0 ≤ q ∧ Nearest (q * 10 ^ 9) n ∧ n < 2 ^ 64 * 10 ^ 9
  | none, some ms => n = ms * 10 ^ 6
  | none, none => False

theorem Asks.milliseconds (h : Asks p n) (hs : p.seconds = none) :
    ∃ ms, p.milliseconds = some ms ∧ n = ms * 10 ^ 6 := by
  rw [Asks, hs] at h
  cases hms : p.milliseconds with
  | some ms =>
    rw [hms] at h
    exact ⟨ms, rfl, h⟩
  | none =>
    rw [hms] at h
    cases h

theorem duration_eq_ok :
    duration params = .ok n ↔ ∃ p, decode params = .ok p ∧ Asks p n := by
  rw [duration, bind_eq_ok]
  refine exists_congr fun p => and_congr decodeParams_eq_ok ?_
  obtain ⟨seconds, milliseconds⟩ := p
  cases seconds with
  | some s =>
    dsimp only [Asks]
    rw [← nanosOf_eq_ok]
    cases nanosOf s with
    | ok n' => exact ⟨fun h => by cases h; rfl, fun h => by cases h; rfl⟩
    | error f => exact iff_of_false nofun nofun
  | none =>
    cases milliseconds with
    | some ms => exact ⟨fun h => by cases h; rfl, fun h => by cases h; rfl⟩
    | none => exact iff_of_false nofun id

/-- The milliseconds of decoded parameters fit 64 bits. -/
theorem milliseconds_lt (hparams : params.Proper) (h : decode params = .ok p) :
    ∀ ms, p.milliseconds = some ms → ms < 2 ^ 64 := by
  intro ms hms
  obtain ⟨found, hfound, h⟩ := bind_eq_ok.1 h
  obtain ⟨seconds, -, h⟩ := bind_eq_ok.1 h
  obtain ⟨milliseconds, hmilliseconds, h⟩ := bind_eq_ok.1 h
  cases h
  obtain rfl : milliseconds = some ms := hms
  rcases Decode.getD_eq_ok hmilliseconds with hnone | ⟨v, hv, hd⟩
  · cases hnone
  · have hproper : v.Proper := .field (Decode.fieldsProper_of_record hfound hparams) hv
    have hword := (Decode.unsigned_of_proper hproper).1 (Decode.of_optional hd ms rfl)
    unfold Json.unsigned64? at hword
    split at hword
    · split at hword
      · cases hword
        omega
      · cases hword
    · cases hword

/-! ## What is reported -/

theorem run_of_asks (scope : Scope) (hd : decode params = .ok p) (hn : Asks p n) :
    (handler.run params scope).outcome =
      .value (.success ("Waited " ++ toString (n / 10 ^ 6) ++ " ms")
        (.ofFields [("waited_ms", .ofNat (n / 10 ^ 6 % 2 ^ 64))]), scope.vars) := by
  have hduration : duration params = .ok n := duration_eq_ok.2 ⟨p, hd, hn⟩
  unfold handler
  simp only [hduration, Timeline.ofExcept_ok_bind]
  rw [Timeline.bind_value rfl]
  rfl

theorem exists_asks_of_value {x : StepResult × Fields}
    (h : (handler.run params scope).outcome = .value x) :
    ∃ p n, decode params = .ok p ∧ Asks p n := by
  cases hduration : duration params with
  | ok n =>
    obtain ⟨p, hp⟩ := duration_eq_ok.1 hduration
    exact ⟨p, n, hp⟩
  | error f =>
    unfold handler at h
    simp only [hduration, Timeline.ofExcept_error_bind] at h
    cases h

/-- **The milliseconds that a delay reports.** It waits for parameters that ask for some time, and
for no others. The message names the whole milliseconds of this time and the data has as many of
them as 64 bits hold: all of them just when they fit, as those of parameters without seconds do. -/
theorem waited_ms_exact_iff (hparams : params.Proper) (scope : Scope) :
    (∀ x, (handler.run params scope).outcome = .value x → ∃ p n, decode params = .ok p ∧ Asks p n) ∧
    ∀ p n, decode params = .ok p → Asks p n →
      ∃ r, (handler.run params scope).outcome = .value (r, scope.vars) ∧
        r.status = .success ∧ r.message = "Waited " ++ toString (n / 10 ^ 6) ++ " ms" ∧
        r.data.get? "waited_ms" = some (.ofNat (n / 10 ^ 6 % 2 ^ 64)) ∧
        (r.data.get? "waited_ms" = some (.ofNat (n / 10 ^ 6)) ↔ n < 2 ^ 64 * 10 ^ 6) ∧
        (p.seconds = none → n < 2 ^ 64 * 10 ^ 6) := by
  refine ⟨fun x => exists_asks_of_value, fun p n hd hn =>
    ⟨_, run_of_asks scope hd hn, rfl, rfl, rfl, ?_, fun hs => ?_⟩⟩
  · have hdata (k : ℕ) : (Json.ofFields [("waited_ms", .ofNat k)]).get? "waited_ms" =
        some (.ofNat k) := rfl
    rw [StepResult.success, hdata, Option.some_inj, Json.ofNat, Json.ofNat, Json.int.injEq,
      Nat.cast_inj, Nat.mod_eq_iff_lt (by norm_num), Nat.div_lt_iff_lt_mul (by norm_num)]
  · obtain ⟨ms, hms, rfl⟩ := hn.milliseconds hs
    exact Nat.mul_lt_mul_of_pos_right (milliseconds_lt hparams hd ms hms) (by norm_num)

/-- The parameters of a wait for some whole seconds. -/
def wholeSeconds (n : ℕ) : Json := .obj [("seconds", .ofNat n)]

theorem proper_single {key : String} (h : n < 2 ^ 64) : Json.Proper (.obj [(key, .ofNat n)]) :=
  Json.Proper.obj_iff.2 ⟨List.pairwise_singleton _ _, .ofNat (by omega), trivial⟩

/-- Whole seconds that a double stands for are waited for. -/
theorem asks_wholeSeconds (hn : n < 2 ^ 64) (hround : rounded n = n) :
    ∃ p, decode (wholeSeconds n) = .ok p ∧ Asks p (n * 10 ^ 9) := by
  have hvalue : value? (Float.ofInt n) = some (n : ℚ) := by
    rw [(ofInt_standsFor (by omega)).value, hround]
    rfl
  refine ⟨⟨some (Float.ofInt n), none⟩, rfl, _, hvalue, Nat.cast_nonneg n, nearest_of_lt ?_,
    Nat.mul_lt_mul_of_pos_right hn (by norm_num)⟩
  rw [Nat.cast_mul, Nat.cast_pow, Nat.cast_ofNat, sub_self, abs_zero]
  exact one_half_pos

/-- None of the milliseconds that can be asked for is lost, and of some seconds nearly all are. -/
theorem waited_ms_exact_iff_ends :
    let limits : Json := .obj [("milliseconds", .ofNat 18446744073709551615)]
    let seconds := wholeSeconds 18446744073709552
    limits.Proper ∧ seconds.Proper ∧
      (∃ r, (handler.run limits default).outcome = .value (r, []) ∧
        r.message = "Waited 18446744073709551615 ms" ∧
        r.data.get? "waited_ms" = some (.ofNat 18446744073709551615)) ∧
      ∃ r, (handler.run seconds default).outcome = .value (r, []) ∧
        r.message = "Waited 18446744073709552000 ms" ∧
        r.data.get? "waited_ms" = some (.ofNat 384) := by
  intro limits seconds
  have hlimits : limits.Proper := proper_single (by norm_num)
  have hseconds : seconds.Proper := proper_single (by norm_num)
  refine ⟨hlimits, hseconds, ?_, ?_⟩
  · obtain ⟨r, hr, -, hmessage, hdata, -⟩ := (waited_ms_exact_iff hlimits default).2
      ⟨none, some 18446744073709551615⟩ (18446744073709551615 * 10 ^ 6) rfl rfl
    exact ⟨r, hr, hmessage, hdata⟩
  · obtain ⟨p, hp, hasks⟩ := asks_wholeSeconds (n := 18446744073709552) (by norm_num) (by decide)
    obtain ⟨r, hr, -, hmessage, hdata, -⟩ :=
      (waited_ms_exact_iff hseconds default).2 p _ hp hasks
    exact ⟨r, hr, hmessage, hdata⟩

/-- The data of a wait can have fewer milliseconds than its message names. -/
theorem waited_ms_wraps :
    ¬∀ (params : Json) (scope : Scope) (r : StepResult) (vars : Fields) (ms : ℕ),
      params.Proper → (handler.run params scope).outcome = .value (r, vars) →
      r.message = "Waited " ++ toString ms ++ " ms" →
      r.data.get? "waited_ms" = some (.ofNat ms) := by
  intro h
  obtain ⟨p, hp, hasks⟩ := asks_wholeSeconds (n := 18446744073709552) (by norm_num) (by decide)
  have hdata := h _ default _ _ 18446744073709552000 (proper_single (by norm_num))
    (run_of_asks default hp hasks) rfl
  cases hdata

end Handler.Delay
end Runbook
