import Mathlib
import Runbook.Json.Text
import Runbook.Proofs.Json.Grammar
import Runbook.Proofs.Json.Integral
import Runbook.Proofs.Json.Proper
import Runbook.Proofs.Text.Digits

/-!
# Reading a written value

The text of a value without doubles is read as that value (`read_compact`), when no more brackets
are open at once than the reader allows. An escape is read as its character (`readText_escapeChar`)
and digits as their number (`readNumber_digits`); what follows a value counts only behind a number,
which it must not prolong (`NumberEnd`). As each item and each field takes one character at least,
the length of the text bounds the depth of the recursion.
-/

namespace Runbook.Json

variable {cs t : List Char} {fuel depth n : Nat} {v : Json} {positive : Bool}

/-! ## Texts -/

theorem hexValue?_digitChar : ∀ d < 16, hexValue? d.digitChar = some d := by decide

/-- Four digits are read as their number. -/
theorem readHex4_hexPadded (hn : n < 16 ^ 4) (t : List Char) :
    readHex4 (Text.hexPadded 4 n ++ t) = .ok (n, t) := by
  obtain ⟨ds, hds, -, hvalue⟩ :=
    exists_mapM_digitsPadded hexValue?_digitChar (by decide) (by decide) hn
  have hlen : (digitsPadded 16 4 n).length = 4 := length_digitsPadded (by decide) (by decide) hn
  change readHex4 (digitsPadded 16 4 n ++ t) = _
  obtain ⟨a, b, c, d, habcd⟩ := List.length_eq_four.1 hlen
  rw [habcd] at hds ⊢
  simp only [List.mapM_cons, List.mapM_nil, Option.bind_eq_bind, Option.bind_eq_some_iff,
    Option.pure_def, Option.some.injEq] at hds
  obtain ⟨w, hw, _, ⟨x, hx, _, ⟨y, hy, _, ⟨z, hz, _, rfl, rfl⟩, rfl⟩, rfl⟩, rfl⟩ := hds
  simp only [List.foldl_cons, List.foldl_nil, Nat.zero_mul, Nat.zero_add] at hvalue
  simp only [List.cons_append, List.nil_append, readHex4, hw, hx, hy, hz, hvalue]

/-- A character without a short escape is read of its number. -/
theorem readEscape_code (hn : n < 0xD800) (t : List Char) :
    readEscape ('u' :: (Text.hexPadded 4 n ++ t)) = .ok (Char.ofNat n, t) := by
  rw [readEscape, readUnicode, readHex4_hexPadded (by omega)]
  simp [show ¬0xDC00 ≤ n by omega, show ¬0xD800 ≤ n by omega]

/-- **A character** of a text is read back from its escape. -/
theorem readText_escapeChar (acc : List Char) (c : Char) (t : List Char) :
    readText (fuel + 1) acc (escapeChar c ++ t) = readText fuel (c :: acc) t := by
  unfold escapeChar
  split
  case h_6 hquote hslash _ _ _ =>
    split
    · rename_i hc
      obtain rfl : c = '\x08' := Char.toNat_inj.1 (beq_iff_eq.1 hc)
      rfl
    · split
      · rename_i hc
        obtain rfl : c = '\x0c' := Char.toNat_inj.1 (beq_iff_eq.1 hc)
        rfl
      · split
        · rename_i hc
          change readText (fuel + 1) acc ('\\' :: 'u' :: (Text.hexPadded 4 c.toNat ++ t)) = _
          rw [readText, readEscape_code (by omega), Char.ofNat_toNat]
        · rename_i hc
          rw [List.singleton_append, readText]
          · rw [if_neg hc]
          all_goals simp_all
  all_goals rfl

theorem readText_flatMap (acc : List Char) (h : cs.length < fuel) :
    readText fuel acc (cs.flatMap escapeChar ++ '"' :: t) =
      .ok (String.ofList (acc.reverse ++ cs), t) := by
  induction cs generalizing fuel acc with
  | nil =>
    obtain ⟨fuel, rfl⟩ : ∃ f, fuel = f + 1 := ⟨fuel - 1, by simp at h; omega⟩
    simp [readText]
  | cons c cs ih =>
    rw [List.length_cons] at h
    obtain ⟨fuel, rfl⟩ : ∃ f, fuel = f + 1 := ⟨fuel - 1, by omega⟩
    rw [List.flatMap_cons, List.append_assoc, readText_escapeChar, ih _ (by omega)]
    simp

/-! ## Numbers -/

/-- What follows does not prolong a number. -/
def NumberEnd (t : List Char) : Prop :=
  ∀ c ∈ t.head?, c.isDigit = false ∧ c ≠ '.' ∧ c ≠ 'e' ∧ c ≠ 'E'

theorem numberEnd_cons {c : Char} (hc : c.isDigit = false ∧ c ≠ '.' ∧ c ≠ 'e' ∧ c ≠ 'E') :
    NumberEnd (c :: t) :=
  fun _ hd => Option.mem_some.1 hd ▸ hc

theorem le_ofDigitChars (cs : List Char) (m : Nat) : m ≤ Nat.ofDigitChars 10 cs m := by
  induction cs generalizing m with
  | nil => exact Nat.le_refl m
  | cons c cs ih =>
    rw [Nat.ofDigitChars_cons]
    exact Nat.le_trans (by omega) (ih _)

/-- Digits are read as long as their number fits 64 bits. -/
theorem readInteger_append {m : Nat} (hd : ∀ c ∈ cs, c.isDigit = true)
    (h : Nat.ofDigitChars 10 cs m ≤ maxUnsigned) :
    readInteger positive m (cs ++ t) = readInteger positive (Nat.ofDigitChars 10 cs m) t := by
  induction cs generalizing m with
  | nil => rfl
  | cons c cs ih =>
    have hstep : 10 * m + (c.toNat - 48) = m * 10 + digitValue c := by
      rw [Nat.mul_comm, digitValue]
    rw [Nat.ofDigitChars_cons, show '0'.toNat = 48 from rfl, hstep] at h ⊢
    have hle : m * 10 + digitValue c ≤ maxUnsigned := (le_ofDigitChars cs _).trans h
    rw [List.cons_append, readInteger, if_pos (hd c List.mem_cons_self)]
    dsimp only
    rw [if_neg (Nat.not_lt.2 hle), ih (fun d hc => hd d (List.mem_cons_of_mem _ hc)) h]

theorem readInteger_end (ht : NumberEnd t) :
    readInteger positive n t = readAfterInteger positive n t := by
  cases t with
  | nil => rfl
  | cons c t => rw [readInteger, if_neg (by simp [(ht c rfl).1])]

/-- **The digits** of a number are read as this number. -/
theorem readNumber_digits (positive : Bool) (hn : n ≤ maxUnsigned) (ht : NumberEnd t) :
    readNumber positive (Nat.toDigits 10 n ++ t) = readAfterInteger positive n t := by
  obtain ⟨c, cs, hcs, hzero⟩ := toDigits_eq_cons n
  -- A zero in front is read as the whole number, which it is.
  by_cases hc : c = '0'
  · obtain rfl := hzero hc
    cases t with
    | nil => rfl
    | cons d t =>
      rw [show Nat.toDigits 10 0 = ['0'] from rfl, List.singleton_append, readNumber,
        if_neg (by simp [(ht d rfl).1])]
  · have hdigits : ∀ d ∈ c :: cs, d.isDigit = true := fun d hd =>
      Nat.isDigit_of_mem_toDigits (n := n) (by decide) (by decide) (hcs ▸ hd)
    have hvalue : Nat.ofDigitChars 10 cs (digitValue c) = n := by
      have hread : Nat.ofDigitChars 10 (c :: cs) 0 = n :=
        hcs ▸ Nat.ofDigitChars_toDigits (by decide) (by decide)
      rwa [Nat.ofDigitChars_cons, Nat.mul_zero, Nat.zero_add] at hread
    rw [hcs, List.cons_append, readNumber]
    · rw [if_pos (hdigits c List.mem_cons_self),
        readInteger_append (fun d hd => hdigits d (List.mem_cons_of_mem _ hd)) (by rwa [hvalue]),
        hvalue, readInteger_end ht]
    · exact fun h => hc h

theorem readAfterInteger_end (ht : NumberEnd t) : readAfterInteger positive n t =
    if positive then .ok (.int n, t)
    else if n == 0 || n > 9223372036854775808 then .ok (.double (-n.toUInt64.toFloat), t)
    else .ok (.int (-n), t) := by
  unfold readAfterInteger
  split
  · exact absurd rfl (ht _ rfl).2.1
  · exact absurd rfl (ht _ rfl).2.2.1
  · exact absurd rfl (ht _ rfl).2.2.2
  · rfl

theorem readValue_digits (hn : n ≤ maxUnsigned) (ht : NumberEnd t) :
    readValue (fuel + 1) depth (Nat.toDigits 10 n ++ t) = .ok (.int n, t) := by
  have hnumber := readNumber_digits true hn ht
  rw [readAfterInteger_end ht, if_pos rfl] at hnumber
  obtain ⟨c, cs, hcs, -⟩ := toDigits_eq_cons n
  have hc : c.isDigit = true := isDigit_of_mem_digits (hcs ▸ List.mem_cons_self)
  have hspace : isSpace c = false := Grammar.Begins.isSpace_eq_false (.inl hc)
  rw [hcs, List.cons_append] at hnumber ⊢
  rw [readValue, skipSpace, List.dropWhile_cons_of_neg (by simp [hspace])]
  split
  case h_9 heq =>
    cases heq
    rw [if_pos hc, hnumber]
  all_goals
    rename_i heq
    cases heq <;> exact absurd hc (by decide)

/-- **An integer** of 64 bits is read back. -/
theorem readValue_int {i : Int} (hi : -(2 ^ 63) ≤ i ∧ i < 2 ^ 64) (ht : NumberEnd t) :
    readValue (fuel + 1) depth ((toString i).toList ++ t) = .ok (.int i, t) := by
  rcases toList_toString i with ⟨n, rfl, hs⟩ | ⟨n, hpos, rfl, hs⟩
  · rw [hs, readValue_digits (by rw [maxUnsigned]; omega) ht]
  · have hlarge : ¬n > 9223372036854775808 := by omega
    rw [hs, List.cons_append, readValue]
    change readNumber false (Nat.toDigits 10 n ++ t) = _
    rw [readNumber_digits false (by rw [maxUnsigned]; omega) ht, readAfterInteger_end ht]
    simp [hlarge, Nat.ne_of_gt hpos]

/-! ## Items and fields -/

/-- Texts behind one another, each with a comma in front but for the first of all. -/
def listed (first : Bool) : List (List Char) → List Char
  | [] => []
  | x :: xs => (if first then x else ',' :: x) ++ listed false xs

/-- The text of a field. -/
def fieldText (e : String × Json) : List Char :=
  '"' :: (e.1.toList.flatMap escapeChar ++ '"' :: ':' :: e.2.compact.toList)

theorem toList_compactItems (xs : List Json) :
    (compactItems xs).toList = listed true (xs.map (·.compact.toList)) := by
  induction xs with
  | nil => simp [compactItems, listed]
  | cons x xs ih =>
    cases xs with
    | nil => simp [compactItems, listed]
    | cons y ys =>
      rw [compactItems, String.toList_append, String.toList_append, ih]
      · simp [listed]
      · nofun

theorem toList_compactFields (es : List (String × Json)) :
    (compactFields es).toList = listed true (es.map fieldText) := by
  induction es with
  | nil => simp [compactFields, listed]
  | cons e es ih =>
    obtain ⟨k, v⟩ := e
    cases es with
    | nil => simp [compactFields, listed, fieldText, escaped]
    | cons f es =>
      rw [compactFields]
      · simp only [String.toList_append, ih]
        simp [listed, fieldText, escaped]
      · nofun

theorem numberEnd_listed {xs : List (List Char)} (ht : NumberEnd t) :
    NumberEnd (listed false xs ++ t) := by
  cases xs with
  | nil => exact ht
  | cons x xs => exact numberEnd_cons (by decide)

theorem length_le_escaped (cs : List Char) : cs.length ≤ (cs.flatMap escapeChar).length := by
  have hpos (c : Char) : 0 < (escapeChar c).length := by
    unfold escapeChar
    split
    case h_6 => split_ifs <;> simp
    all_goals simp
  induction cs with
  | nil => simp
  | cons c cs ih =>
    have := hpos c
    rw [List.flatMap_cons, List.length_append, List.length_cons]
    omega

theorem exists_compact_eq_cons (hv : v.isIntegral = true) :
    ∃ c cs, v.compact.toList = c :: cs ∧ Grammar.Begins c := by
  cases v with
  | double x => cases hv
  | bool b => cases b <;> exact ⟨_, _, rfl, .inr (by decide)⟩
  | int i =>
    rcases toList_toString i with ⟨n, -, hs⟩ | ⟨n, -, -, hs⟩
    · obtain ⟨c, cs, hcs, -⟩ := toDigits_eq_cons n
      exact ⟨c, cs, hs.trans hcs, .inl (isDigit_of_mem_digits (hcs ▸ List.mem_cons_self))⟩
    · exact ⟨_, _, hs, .inr (by decide)⟩
  | null => exact ⟨_, _, rfl, .inr (by decide)⟩
  | str s =>
    exact ⟨'"', s.toList.flatMap escapeChar ++ ['"'], by simp [compact, escaped], .inr (by decide)⟩
  | arr xs => exact ⟨'[', (compactItems xs).toList ++ [']'], by simp [compact], .inr (by decide)⟩
  | obj es =>
    exact ⟨'\x7b', (compactFields es).toList ++ ['\x7d'], by simp [compact], .inr (by decide)⟩

/-- The value is read back in front of what may follow it. -/
def ReadsBack (depth : Nat) (v : Json) : Prop :=
  ∀ fuel t, v.compact.toList.length ≤ fuel → NumberEnd t →
    readValue (fuel + 1) depth (v.compact.toList ++ t) = .ok (v, t)

theorem readItems_item (first : Bool) (acc : List Json) (hv : v.isIntegral = true)
    (h : ReadsBack depth v) (hfuel : v.compact.toList.length ≤ fuel) (ht : NumberEnd t) :
    readItems (fuel + 2) depth first acc
      ((if first then v.compact.toList else ',' :: v.compact.toList) ++ t) =
        readItems (fuel + 1) depth false (v :: acc) t := by
  have hread := h fuel t hfuel ht
  obtain ⟨c, cs, hcs, hbegins⟩ := exists_compact_eq_cons hv
  have hclose : c ≠ ']' := by
    rintro rfl
    exact absurd hbegins (by decide)
  rw [hcs] at hread ⊢
  have hskip : skipSpace (c :: cs ++ t) = c :: cs ++ t :=
    List.dropWhile_cons_of_neg (by simp [hbegins.isSpace_eq_false])
  cases first with
  | true =>
    rw [if_pos rfl, readItems, hskip]
    simp only [List.cons_append] at hread ⊢
    simp [hread]
  | false =>
    have hcomma : skipSpace (',' :: (c :: cs) ++ t) = ',' :: (c :: cs ++ t) := rfl
    rw [if_neg (by decide), readItems, hcomma]
    simp only [List.cons_append] at hread hskip ⊢
    simp [hskip, hclose, hread]

theorem readItems_listed (first : Bool) (acc xs : List Json)
    (h : ∀ x ∈ xs, x.isIntegral = true ∧ ReadsBack depth x)
    (hfuel : (listed first (xs.map (·.compact.toList))).length ≤ fuel) :
    readItems (fuel + 2) depth first acc (listed first (xs.map (·.compact.toList)) ++ ']' :: t) =
      .ok (.arr (acc.reverse ++ xs), t) := by
  induction xs generalizing first acc fuel with
  | nil => simp [listed, readItems, skipSpace, isSpace]
  | cons x xs ih =>
    obtain ⟨⟨hx, hread⟩, hxs⟩ := List.forall_mem_cons.1 h
    have hlen : x.compact.toList.length + (listed false (xs.map (·.compact.toList))).length ≤
        fuel := by
      cases first <;> simp [listed] at hfuel <;> omega
    -- An item takes a character at least, so the fuel lasts for the rest of the text.
    obtain ⟨c, cs, hcs, -⟩ := exists_compact_eq_cons hx
    have hpos : 0 < x.compact.toList.length := by simp [hcs]
    obtain ⟨fuel, rfl⟩ : ∃ f, fuel = f + 1 := ⟨fuel - 1, by omega⟩
    rw [List.map_cons, listed, List.append_assoc,
      readItems_item first acc hx hread (by omega) (numberEnd_listed (numberEnd_cons (by decide))),
      ih false (x :: acc) hxs (by omega)]
    simp

theorem readFields_field (first : Bool) (acc : Fields) (k : String) (h : ReadsBack depth v)
    (hfuel : (fieldText (k, v)).length ≤ fuel) (ht : NumberEnd t) :
    readFields (fuel + 2) depth first acc
      ((if first then fieldText (k, v) else ',' :: fieldText (k, v)) ++ t) =
        readFields (fuel + 1) depth false (Table.insert k v acc) t := by
  have htext : (fieldText (k, v)).length =
      (k.toList.flatMap escapeChar).length + v.compact.toList.length + 3 := by
    simp [fieldText]
    omega
  have hread := h fuel t (by omega) ht
  have hle := length_le_escaped k.toList
  have hkey : readText (fuel + 2) [] (k.toList.flatMap escapeChar ++ '"' :: ':' ::
      (v.compact.toList ++ t)) = .ok (String.ofList k.toList, ':' :: (v.compact.toList ++ t)) :=
    readText_flatMap [] (by omega)
  cases first <;> simp [fieldText, readFields, skipSpace, isSpace, hkey, hread]

/-- The fields come after those before them, so each goes to the end. -/
theorem readFields_listed (first : Bool) (before es : Fields) (hs : Table.Sorted (before ++ es))
    (h : ∀ k v, (k, v) ∈ es → ReadsBack depth v)
    (hfuel : (listed first (es.map fieldText)).length ≤ fuel) :
    readFields (fuel + 2) depth first before (listed first (es.map fieldText) ++ '\x7d' :: t) =
      .ok (.obj (before ++ es), t) := by
  induction es generalizing first before fuel with
  | nil => simp [listed, readFields, skipSpace, isSpace]
  | cons e es ih =>
    obtain ⟨k, v⟩ := e
    have hlast : Table.insert k v before = before ++ [(k, v)] :=
      Table.insert_last fun e he => (List.pairwise_append.1 hs).2.2 e he (k, v) List.mem_cons_self
    have hs' : Table.Sorted ((before ++ [(k, v)]) ++ es) := by rwa [List.append_assoc]
    have hlen : (fieldText (k, v)).length + (listed false (es.map fieldText)).length ≤ fuel := by
      cases first <;> simp [listed] at hfuel <;> omega
    have hpos : 0 < (fieldText (k, v)).length := Nat.succ_pos _
    obtain ⟨fuel, rfl⟩ : ∃ f, fuel = f + 1 := ⟨fuel - 1, by omega⟩
    rw [List.map_cons, listed, List.append_assoc,
      readFields_field first before k (h k v List.mem_cons_self) (by omega)
        (numberEnd_listed (numberEnd_cons (by decide))), hlast,
      ih false _ hs' (fun l w hw => h l w (List.mem_cons_of_mem _ hw)) (by omega)]
    simp

/-! ## Values -/

/-- **A value without doubles** is read back. -/
theorem readsBack (h : v.Held depth) (hv : v.isIntegral = true) : ReadsBack (depth + 1) v := by
  induction h with
  | double x => cases hv
  | null => exact fun _ _ _ _ => rfl
  | bool b => cases b <;> exact fun _ _ _ _ => rfl
  | int hi => exact fun _ _ _ ht => readValue_int hi ht
  | str s =>
    intro fuel t hfuel ht
    have hlen : (compact (.str s)).toList.length = (s.toList.flatMap escapeChar).length + 2 := by
      simp [compact, escaped]
    have hle := length_le_escaped s.toList
    have htext : readText (fuel + 1) [] (s.toList.flatMap escapeChar ++ '"' :: t) =
        .ok (String.ofList s.toList, t) := readText_flatMap [] (by omega)
    simp [compact, escaped, readValue, skipSpace, isSpace, htext]
  | @arr depth xs h ih =>
    intro fuel t hfuel ht
    rw [isIntegral, areIntegral_iff] at hv
    have htext : (compact (.arr xs)).toList =
        '[' :: (listed true (xs.map (·.compact.toList)) ++ [']']) := by
      simp [compact, toList_compactItems]
    rw [htext, List.length_cons, List.length_append, List.length_singleton] at hfuel
    obtain ⟨fuel, rfl⟩ : ∃ f, fuel = f + 2 := ⟨fuel - 2, by omega⟩
    have hitems : readItems (fuel + 2) (depth + 1) true []
        (listed true (xs.map (·.compact.toList)) ++ ']' :: t) = .ok (.arr xs, t) :=
      readItems_listed true [] xs (fun x hx => ⟨hv x hx, ih x hx (hv x hx)⟩) (by omega)
    rw [htext]
    simp [readValue, skipSpace, isSpace, hitems]
  | @obj depth es hs h ih =>
    intro fuel t hfuel ht
    rw [isIntegral, haveIntegral_iff] at hv
    have htext : (compact (.obj es)).toList =
        '\x7b' :: (listed true (es.map fieldText) ++ ['\x7d']) := by
      simp [compact, toList_compactFields]
    rw [htext, List.length_cons, List.length_append, List.length_singleton] at hfuel
    obtain ⟨fuel, rfl⟩ : ∃ f, fuel = f + 2 := ⟨fuel - 2, by omega⟩
    have hfields : readFields (fuel + 2) (depth + 1) true []
        (listed true (es.map fieldText) ++ '\x7d' :: t) = .ok (.obj es, t) :=
      readFields_listed true [] es hs (fun k v hmem => ih k v hmem (hv k v hmem)) (by omega)
    rw [htext]
    simp [readValue, skipSpace, isSpace, hfields]

/-- **The text of a value without doubles** is read as the value, when its nesting is within the
limit of the reader. -/
theorem read_compact (h : v.Held 127) (hv : v.isIntegral = true) : read v.compact = .ok v := by
  have hread := readsBack h hv (2 * v.compact.toList.length + 1) [] (by omega) nofun
  rw [List.append_nil] at hread
  rw [read, readChars, hread]
  rfl

/-- What is written is a document of the grammar. -/
theorem isDocument_compact (h : v.Held 127) (hv : v.isIntegral = true) : IsDocument v.compact :=
  isDocument_of_read (read_compact h hv)

end Runbook.Json
