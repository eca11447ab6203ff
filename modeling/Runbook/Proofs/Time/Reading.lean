import Runbook.Proofs.Json.Decode
import Runbook.Proofs.Text.Digits
import Runbook.Proofs.Text.Trim
import Runbook.Proofs.Time.Calendar

/-!
# Instants through texts

An instant that lies in the years of the calendar and exceeds a second only within a leap second
(`Instant.Proper`) is read of its text (`Instant.parse_text`), whichever of its decimals are written;
and what is read of any text, at whatever offset, is such an instant (`Instant.proper_of_parse`).
-/

namespace Runbook.Instant

variable {n w : Nat} {c : Char} {cs ds rest : List Char} {width : Option Nat}

/-- An instant of a year of the calendar, whose nanoseconds exceed a second only within the last
second of a minute. -/
structure Proper (t : Instant) : Prop where
  nanos : t.nanos < 1000000000 ∨ t.nanos < 2000000000 ∧ t.seconds % 60 = 59
  year : inRange t.year = true

/-- The instants of the years 0 to 9999, which are written without a sign, are proper. -/
theorem proper_of_year {t : Instant} (hyear : 0 ≤ t.year ∧ t.year ≤ 9999)
    (hnanos : t.nanos < 1000000000) : t.Proper := by
  refine ⟨.inl hnanos, ?_⟩
  simp only [inRange, Bool.and_eq_true, decide_eq_true_eq]
  omega

/-! ## Digits -/

theorem isBlank_of_isDigit (h : c.isDigit = true) : Text.isBlank c = false := by
  have hbounds : 48 ≤ c.toNat ∧ c.toNat ≤ 57 := Char.isDigit_iff_toNat.1 h
  simp only [Text.isBlank, Bool.or_eq_false_iff, Bool.and_eq_false_iff, beq_eq_false_iff_ne,
    decide_eq_false_iff_not]
  omega

theorem leadingDigits_append (hds : ∀ c ∈ ds, c.isDigit = true)
    (hfits : ∀ w ∈ width, ds.length ≤ w)
    (hstop : width = some ds.length ∨ ∀ c ∈ rest.head?, c.isDigit = false) :
    leadingDigits width (ds ++ rest) = ds := by
  cases width with
  | none => exact Text.takeWhile_stop hds (hstop.resolve_left (Option.some_ne_none _).symm)
  | some w =>
    have htake : (ds ++ rest).take w = ds ++ rest.take (w - ds.length) := by
      rw [List.take_append, List.take_of_length_le (hfits w rfl)]
    show ((ds ++ rest).take w).takeWhile Char.isDigit = ds
    rw [htake]
    refine Text.takeWhile_stop hds fun c hc => ?_
    rcases hstop with hstop | hstop
    · obtain rfl : w = ds.length := Option.some.inj hstop
      simp at hc
    · rw [List.head?_take] at hc
      split at hc
      · cases hc
      · exact hstop c hc

/-- Digits are read up to the width, or up to what is no digit. -/
theorem readDigits_append (hne : ds ≠ []) (hds : ∀ c ∈ ds, c.isDigit = true)
    (hvalue : Decimal.natOfDigits? ds = some n) (hn : n < 9223372036854775808)
    (hfits : ∀ w ∈ width, ds.length ≤ w)
    (hstop : width = some ds.length ∨ ∀ c ∈ rest.head?, c.isDigit = false) :
    readDigits width (ds ++ rest) = .ok (n, rest) := by
  have hlead := leadingDigits_append hds hfits hstop
  obtain ⟨d, ds', rfl⟩ := List.exists_cons_of_ne_nil hne
  unfold readDigits
  rw [hlead, List.cons_append]
  simp only [hvalue, if_pos hn]
  rw [← List.cons_append, List.drop_left]

theorem exists_leadingDigits (width : Option Nat) (cs : List Char) :
    (∃ rest, cs = leadingDigits width cs ++ rest) ∧
      ∀ w ∈ width, (leadingDigits width cs).length ≤ w := by
  cases width with
  | none =>
    constructor
    · exact ⟨cs.dropWhile Char.isDigit, List.takeWhile_append_dropWhile.symm⟩
    · intro w hw
      cases hw
  | some w =>
    have hshort : leadingDigits (some w) cs <+: cs.take w := List.takeWhile_prefix _
    constructor
    · obtain ⟨rest, hrest⟩ := hshort.trans (List.take_prefix w cs)
      exact ⟨rest, hrest.symm⟩
    · intro m hm
      obtain rfl : w = m := Option.some.inj hm
      exact hshort.length_le.trans (List.length_take_le _ _)

/-- What is read of some digits is below the power that has as many zeros. -/
theorem exists_of_readDigits (h : readDigits width cs = .ok (n, rest)) :
    ∃ ds, cs = ds ++ rest ∧ (∀ w ∈ width, ds.length ≤ w) ∧ n < 10 ^ ds.length := by
  obtain ⟨⟨r, hr⟩, hfits⟩ := exists_leadingDigits width cs
  have hparts : Decimal.natOfDigits? (leadingDigits width cs) = some n ∧
      cs.drop (leadingDigits width cs).length = rest := by
    simp only [readDigits] at h
    split at h
    · cases h
    · cases h
    · split at h
      · rename_i hvalue
        split at h
        · cases h
          exact ⟨hvalue, rfl⟩
        · cases h
      · cases h
  obtain ⟨hvalue, hrest⟩ := hparts
  refine ⟨leadingDigits width cs, ?_, hfits, lt_of_natOfDigits? hvalue⟩
  generalize leadingDigits width cs = ds at hr hrest
  rw [← hrest, hr, List.drop_left]

/-! ## Parts of a text -/

theorem readDigits_padded (hw : 0 < w) (hle : w ≤ 18) (hn : n < 10 ^ w)
    (hfits : ∀ m ∈ width, w ≤ m)
    (hstop : width = some w ∨ ∀ c ∈ rest.head?, c.isDigit = false) :
    readDigits width (digitsPadded 10 w n ++ rest) = .ok (n, rest) := by
  have hlen : (digitsPadded 10 w n).length = w := length_digitsPadded (by decide) hw hn
  have hsmall : 10 ^ w ≤ 10 ^ 18 := Nat.pow_le_pow_right (by decide) hle
  refine readDigits_append digitsPadded_ne_nil (fun c => isDigit_of_mem_digitsPadded)
    (natOfDigits?_padded w n) (by omega) ?_ ?_ <;> rwa [hlen]

theorem toList_padded (w n : Nat) : (padded w n).toList = digitsPadded 10 w n :=
  String.toList_ofList

theorem head?_digitsPadded (h : c ∈ (digitsPadded 10 w n ++ rest).head?) : c.isDigit = true := by
  obtain ⟨d, ds, hds⟩ := List.exists_cons_of_ne_nil (digitsPadded_ne_nil (b := 10) (w := w) (n := n))
  rw [hds] at h
  cases h
  exact isDigit_of_mem_digitsPadded (w := w) (n := n) (hds ▸ List.mem_cons_self)

theorem readPart_padded {lo hi : Nat} (hlo : lo ≤ n) (hhi : n ≤ hi) (hn : n < 100) :
    readPart lo hi (digitsPadded 10 2 n ++ rest) = .ok (n, rest) := by
  have htrim : Text.trimStartChars (digitsPadded 10 2 n ++ rest) = digitsPadded 10 2 n ++ rest :=
    Text.trimStartChars_eq_self fun c hc => isBlank_of_isDigit (head?_digitsPadded hc)
  have hread : readDigits (some 2) (digitsPadded 10 2 n ++ rest) = .ok (n, rest) :=
    readDigits_padded (by decide) (by decide) hn (by simp) (.inl rfl)
  refine bind_eq_ok.2 ⟨(n, rest), htrim.symm ▸ hread, ?_⟩
  simp [hlo, hhi]

theorem readMark_cons (h : Text.isBlank c = false) : readMark c (c :: rest) = .ok rest := by
  have htrim : Text.trimStartChars (c :: rest) = c :: rest :=
    Text.trimStartChars_eq_self fun d hd => by
      cases hd
      exact h
  simp [readMark, htrim]

theorem readSigned_padded (w n : Nat) (rest : List Char) :
    readSigned (digitsPadded 10 w n ++ rest) =
      readDigits (some 4) (digitsPadded 10 w n ++ rest) >>= fun x => .ok ((x.1 : Int), x.2) := by
  have hdigit : ∀ c ∈ (digitsPadded 10 w n ++ rest).head?, c.isDigit = true :=
    fun c hc => head?_digitsPadded hc
  generalize digitsPadded 10 w n ++ rest = cs at hdigit
  have htrim : Text.trimStartChars cs = cs :=
    Text.trimStartChars_eq_self fun d hd => isBlank_of_isDigit (hdigit d hd)
  unfold readSigned
  rw [htrim]
  split
  · cases hdigit '-' rfl
  · cases hdigit '+' rfl
  · rfl

theorem readDigits_year (w : Nat) (hn : n < 9223372036854775808) :
    readDigits none (digitsPadded 10 w n ++ '-' :: rest) = .ok (n, '-' :: rest) :=
  readDigits_append digitsPadded_ne_nil (fun _ => isDigit_of_mem_digitsPadded)
    (natOfDigits?_padded w n) hn (fun _ hw => by cases hw) (.inr fun c hc => by cases hc; rfl)

/-- A year is read up to the dash. -/
theorem readYear_yearText {year : Int} (h : inRange year = true) :
    readYear ((yearText year).toList ++ '-' :: rest) = .ok (year, '-' :: rest) := by
  simp only [inRange, Bool.and_eq_true, decide_eq_true_eq] at h
  have hsigned : readSigned ((yearText year).toList ++ '-' :: rest) = .ok (year, '-' :: rest) := by
    unfold yearText
    split
    · rw [String.toList_append, toList_padded]
      refine bind_eq_ok.2 ⟨_, readDigits_year 4 (by omega), ?_⟩
      have hyear : -(year.natAbs : Int) = year := by omega
      dsimp only
      rw [hyear]
    · split
      · rw [String.toList_append, toList_padded]
        refine bind_eq_ok.2 ⟨_, readDigits_year 5 (by omega), ?_⟩
        have hyear : (year.natAbs : Int) = year := by omega
        dsimp only
        rw [hyear]
      · have hread : readDigits (some 4) (digitsPadded 10 4 year.natAbs ++ '-' :: rest) =
            .ok (year.natAbs, '-' :: rest) :=
          readDigits_padded (by decide) (by decide) (by omega) (by simp) (.inl rfl)
        have hyear : (year.natAbs : Int) = year := by omega
        rw [toList_padded, readSigned_padded, hread, ← hyear]
        rfl
  refine bind_eq_ok.2 ⟨_, hsigned, ?_⟩
  have hlow : decide (-2147483648 ≤ year) = true := decide_eq_true (by omega)
  have hhigh : decide (year ≤ 2147483647) = true := decide_eq_true (by omega)
  simp only [hlow, hhigh, Bool.and_self, if_true]

/-- The decimals of a second are read. -/
theorem readFraction_fractionText (hn : n < 1000000000) :
    readFraction ((fractionText n).toList ++ 'Z' :: rest) = .ok (n, 'Z' :: rest) := by
  have hpoint (k m : Nat) (hk : 0 < k ∧ k ≤ 9) (hm : m < 10 ^ k) (hn : m * 10 ^ (9 - k) = n) :
      readFraction (("." ++ padded k m).toList ++ 'Z' :: rest) = .ok (n, 'Z' :: rest) := by
    have hread : readDigits (some 9) (digitsPadded 10 k m ++ 'Z' :: rest) = .ok (m, 'Z' :: rest) :=
      readDigits_padded hk.1 (by omega) hm (by simpa using hk.2)
        (.inr fun c hc => by cases hc; rfl)
    have hlen : (digitsPadded 10 k m).length = k := length_digitsPadded (by decide) hk.1 hm
    have hused : (digitsPadded 10 k m ++ 'Z' :: rest).length - ('Z' :: rest).length = k := by
      rw [List.length_append, hlen, Nat.add_sub_cancel]
    rw [String.toList_append, toList_padded]
    refine bind_eq_ok.2 ⟨_, hread, ?_⟩
    show Except.ok (m * 10 ^ (9 - ((digitsPadded 10 k m ++ 'Z' :: rest).length -
      ('Z' :: rest).length)), 'Z' :: rest) = _
    rw [hused, hn]
  unfold fractionText
  split
  · rename_i h
    rw [beq_iff_eq] at h
    subst h
    rfl
  · split
    · rename_i h
      rw [beq_iff_eq] at h
      exact hpoint 3 _ (by decide) (by omega) (by omega)
    · split
      · rename_i h
        rw [beq_iff_eq] at h
        exact hpoint 6 _ (by decide) (by omega) (by omega)
      · exact hpoint 9 _ (by decide) hn (by simp)

/-! ## Round trip -/

theorem toList_text {t : Instant} {year : Int} {month day : Nat}
    (h : dateOf (t.seconds.fdiv 86400) = (year, month, day)) : t.text.toList =
      (yearText year).toList ++ '-' :: (digitsPadded 10 2 month ++ '-' ::
        (digitsPadded 10 2 day ++ 'T' ::
          (digitsPadded 10 2 (t.secondOfDay.toNat / 3600) ++ ':' ::
            (digitsPadded 10 2 (t.secondOfDay.toNat / 60 % 60) ++ ':' ::
              (digitsPadded 10 2 (t.secondOfDay.toNat % 60 + t.nanos / 1000000000) ++
                ((fractionText (t.nanos % 1000000000)).toList ++ ['Z'])))))) := by
  simp [text, h, toList_padded]

/-- The date and time that an instant is written with are those of the instant. -/
theorem ofLocal_text {t : Instant} {year : Int} {month day : Nat} (h : t.Proper)
    (hdate : dateOf (t.seconds.fdiv 86400) = (year, month, day))
    (hdays : daysOf year month day = t.seconds.fdiv 86400) (hday : day ≤ daysIn year month) :
    ofLocal year month day (t.secondOfDay.toNat / 3600) (t.secondOfDay.toNat / 60 % 60)
      (t.secondOfDay.toNat % 60 + t.nanos / 1000000000) (t.nanos % 1000000000) 0 = .ok t := by
  have hyear : inRange year = true := by
    have hrange := h.year
    rwa [Instant.year, hdate] at hrange
  have hsecond : (t.secondOfDay.toNat : Int) = t.seconds % 86400 := by
    unfold secondOfDay
    omega
  have hfdiv : t.seconds.fdiv 86400 = t.seconds / 86400 :=
    Int.fdiv_eq_ediv_of_nonneg _ (by decide)
  generalize t.secondOfDay.toNat = s at hsecond
  have hvalid : ¬ ((decide ((0 : Int).natAbs ≥ 86400) || !inRange year ||
      decide (daysIn year month < day)) = true) := by
    simp [hyear, hday]
  unfold ofLocal
  rw [if_neg hvalid, hdays, hfdiv]
  dsimp only
  have hback : (⟨t.seconds / 86400 * 86400 + ((s / 3600 * 3600 + s / 60 % 60 * 60 +
      if (s % 60 + t.nanos / 1000000000 == 60) = true then 59
      else s % 60 + t.nanos / 1000000000 : Nat) : Int) - 0,
      t.nanos % 1000000000 +
        if (s % 60 + t.nanos / 1000000000 == 60) = true then 1000000000 else 0⟩ : Instant) = t := by
    obtain ⟨seconds, nanos⟩ := t
    have hnanos := h.nanos
    simp only [beq_iff_eq, Instant.mk.injEq] at *
    split <;> omega
  rw [hback, if_pos h.year]

/-- **The text of an instant** is read as it. -/
theorem parse_text {t : Instant} (h : t.Proper) : parse t.text = .ok t := by
  obtain ⟨year, month, day, hdate, hdays, hmonth, hday⟩ := dateOf_spec (t.seconds.fdiv 86400)
  have hyear : inRange year = true := by
    have hrange := h.year
    rwa [Instant.year, hdate] at hrange
  have hsecond : t.secondOfDay.toNat < 86400 := by
    unfold secondOfDay
    omega
  have hlast : t.secondOfDay.toNat % 60 + t.nanos / 1000000000 ≤ 60 := by
    have hnanos := h.nanos
    omega
  have hmost : daysIn year month ≤ 31 := by
    unfold daysIn
    split
    · split <;> decide
    · split <;> decide
  rw [parse, toList_text hdate]
  exact bind_eq_ok.2 ⟨_, readYear_yearText hyear,
    bind_eq_ok.2 ⟨_, readMark_cons (by decide),
    bind_eq_ok.2 ⟨_, readPart_padded hmonth.1 hmonth.2 (by omega),
    bind_eq_ok.2 ⟨_, readMark_cons (by decide),
    bind_eq_ok.2 ⟨_, readPart_padded hday.1 (by omega) (by omega),
    bind_eq_ok.2 ⟨_, rfl,
    bind_eq_ok.2 ⟨_, readPart_padded (by omega) (by omega) (by omega),
    bind_eq_ok.2 ⟨_, readMark_cons (by decide),
    bind_eq_ok.2 ⟨_, readPart_padded (by omega) (by omega) (by omega),
    bind_eq_ok.2 ⟨_, readMark_cons (by decide),
    bind_eq_ok.2 ⟨_, readPart_padded (by omega) hlast (by omega),
    bind_eq_ok.2 ⟨_, readFraction_fractionText (by omega),
    bind_eq_ok.2 ⟨(0, []), rfl, ofLocal_text h hdate hdays hday.2⟩⟩⟩⟩⟩⟩⟩⟩⟩⟩⟩⟩⟩

/-! ## What is read is proper -/

theorem lt_of_readFraction (h : readFraction cs = .ok (n, rest)) : n < 1000000000 := by
  unfold readFraction at h
  split at h
  · obtain ⟨⟨m, r⟩, hread, h⟩ := bind_eq_ok.1 h
    cases h
    obtain ⟨ds, rfl, hfits, hm⟩ := exists_of_readDigits hread
    have hle : ds.length ≤ 9 := hfits 9 rfl
    have hused : (ds ++ r).length - r.length = ds.length := by
      rw [List.length_append, Nat.add_sub_cancel]
    calc m * 10 ^ (9 - ((ds ++ r).length - r.length)) = m * 10 ^ (9 - ds.length) := by rw [hused]
      _ < 10 ^ ds.length * 10 ^ (9 - ds.length) :=
        Nat.mul_lt_mul_of_pos_right hm (Nat.pow_pos (by decide))
      _ = 1000000000 := by rw [← Nat.pow_add, Nat.add_sub_cancel' hle]
  · cases h
    decide

theorem mod_of_readHoursMinutes (h : readHoursMinutes cs = .ok (n, rest)) : n % 60 = 0 := by
  unfold readHoursMinutes at h
  split at h
  · split at h
    · obtain ⟨⟨m, r⟩, -, h⟩ := bind_eq_ok.1 h
      cases h
      omega
    · cases h
  · cases h

/-- An offset has whole minutes. -/
theorem mod_of_readOffset {offset : Int} (h : readOffset cs = .ok (offset, rest)) :
    offset % 60 = 0 := by
  unfold readOffset at h
  split at h
  · cases h
  · dsimp only at h
    split at h
    · cases h
      rfl
    · split at h
      · cases h
        rfl
      · split at h
        · obtain ⟨⟨m, r⟩, hread, h⟩ := bind_eq_ok.1 h
          have hm := mod_of_readHoursMinutes hread
          cases h
          omega
        · split at h
          · obtain ⟨⟨m, r⟩, hread, h⟩ := bind_eq_ok.1 h
            have hm := mod_of_readHoursMinutes hread
            cases h
            omega
          · cases h

theorem proper_of_ofLocal {t : Instant} {year offset : Int}
    {month day hour minute second nanos : Nat} (hnanos : nanos < 1000000000)
    (hoffset : offset % 60 = 0)
    (h : ofLocal year month day hour minute second nanos offset = .ok t) : t.Proper := by
  unfold ofLocal at h
  split at h
  · cases h
  · dsimp only at h
    generalize ht : Instant.mk _ _ = t' at h
    split at h
    · rename_i hyear
      cases h
      refine ⟨?_, hyear⟩
      simp only [← ht, beq_iff_eq]
      split <;> omega
    · cases h

/-- **What is read of a text** is proper. -/
theorem proper_of_parse {s : String} {t : Instant} (h : parse s = .ok t) : t.Proper := by
  obtain ⟨_, -, h⟩ := bind_eq_ok.1 h
  obtain ⟨_, -, h⟩ := bind_eq_ok.1 h
  obtain ⟨_, -, h⟩ := bind_eq_ok.1 h
  obtain ⟨_, -, h⟩ := bind_eq_ok.1 h
  obtain ⟨_, -, h⟩ := bind_eq_ok.1 h
  obtain ⟨_, -, h⟩ := bind_eq_ok.1 h
  obtain ⟨_, -, h⟩ := bind_eq_ok.1 h
  obtain ⟨_, -, h⟩ := bind_eq_ok.1 h
  obtain ⟨_, -, h⟩ := bind_eq_ok.1 h
  obtain ⟨_, -, h⟩ := bind_eq_ok.1 h
  obtain ⟨_, -, h⟩ := bind_eq_ok.1 h
  obtain ⟨⟨nanos, _⟩, hnanos, h⟩ := bind_eq_ok.1 h
  obtain ⟨⟨offset, _⟩, hoffset, h⟩ := bind_eq_ok.1 h
  dsimp only at h
  split at h
  · cases h
  · exact proper_of_ofLocal (lt_of_readFraction hnanos) (mod_of_readOffset hoffset) h

end Runbook.Instant
