import Mathlib.Data.Bool.AllAny
import Runbook.Proofs.Text.Trim
import Runbook.Template.Token

/-!
# Tokens up to the end of a block

Inside a block the text is split token by token: each step ends the block, ends with a fault or
takes a token and goes on with what is left (`scan_closing`, `scan_fault`, `scan_next`). What may
stand between an expression and the end of its block, white space and closing braces, belongs to no
token before it (`next_append`): none of those characters goes on with a name, a number or a sign,
and none closes a quotation.
-/

namespace Runbook.Template.Token

/-! ## Characters -/

/-- The characters that may stand between an expression and the end of its block. -/
def tailChars : List Char := [' ', '\t', '\n', '\r', Char.ofNat 12, '}']

theorem mem_tailChars_of_isSpace {c : Char} (h : isSpace c = true) : c ∈ tailChars := by
  simp only [isSpace, Bool.or_eq_true, beq_iff_eq] at h
  obtain ((((rfl | rfl) | rfl) | rfl) | h) := h
  iterate 4 decide
  obtain rfl : c = Char.ofNat 12 := by rw [← h, Char.ofNat_toNat]
  decide

/-- A text that may stand between an expression and the end of its block, the end included. -/
structure IsTail (tail : List Char) : Prop where
  ne_nil : tail ≠ []
  mem : ∀ c ∈ tail, c ∈ tailChars

variable {tail cs : List Char} {c : Char} {n fuel : Nat}

theorem IsTail.exists_cons (h : IsTail tail) : ∃ c r, tail = c :: r ∧ c ∈ tailChars := by
  obtain ⟨c, r, rfl⟩ := List.exists_cons_of_ne_nil h.ne_nil
  exact ⟨c, r, rfl, h.mem c List.mem_cons_self⟩

theorem dropLineEnd_eq_self (h : ∀ c ∈ cs.getLast?, c ≠ '\n' ∧ c ≠ '\r') : dropLineEnd cs = cs := by
  have hfeed : (cs.getLast? == some '\n') = false := beq_eq_false_iff_ne.2 fun he => (h _ he).1 rfl
  have hreturn : (cs.getLast? == some '\r') = false :=
    beq_eq_false_iff_ne.2 fun he => (h _ he).2 rfl
  simp [dropLineEnd, hfeed, hreturn]

theorem dropLineEnd_prefix (cs : List Char) : dropLineEnd cs <+: cs := by
  have hdrop : ∀ (ds : List Char) (c : Char),
      (if ds.getLast? == some c then ds.dropLast else ds) <+: ds := fun ds c => by
    split
    · exact List.dropLast_prefix ds
    · exact List.prefix_rfl
  exact (hdrop _ '\r').trans (hdrop cs '\n')

/-! ## Steps inside a block -/

/-- The end of a block at the start of a text, when no bracket is open: whether white space after
it goes, and what follows. -/
def closing? (n : Nat) (cs : List Char) : Option (Bool × List Char) :=
  match n, cs with
  | 0, '-' :: '}' :: '}' :: r => some (true, r)
  | 0, '+' :: '}' :: '}' :: r => some (false, r)
  | 0, '}' :: '}' :: r => some (false, r)
  | _, _ => none

/-- One step inside a block: it ends the block, ends the tokens or takes a token. -/
theorem scan_output (fuel n : Nat) (cs : List Char) : scan (fuel + 1) (.output n) cs =
    match closing? n (skipSpace cs), skipSpace cs with
    | some (trim, r), _ => .outputEnd :: scan fuel (.text trim) r
    | none, [] => []
    | none, cs => match next cs with
      | (.fault e, _) => [.fault e]
      | (t, r) => t :: scan fuel (.output (bracketChange t n)) r := by
  rw [scan.eq_def]
  dsimp only
  generalize skipSpace cs = cs
  split
  · rfl
  · rfl
  · rfl
  · cases n <;> rfl
  · rename_i hcs _ _ _
    have hclosing : closing? n cs = none := by
      unfold closing?
      split <;> simp_all
    rw [hclosing]
    cases cs with
    | nil => exact absurd rfl hcs
    | cons c cs => rfl

theorem scan_closing {trim : Bool} {r : List Char}
    (h : closing? n (skipSpace cs) = some (trim, r)) :
    scan (fuel + 1) (.output n) cs = .outputEnd :: scan fuel (.text trim) r := by
  rw [scan_output, h]

theorem scan_blank (h : skipSpace cs = []) : scan (fuel + 1) (.output n) cs = [] := by
  rw [scan_output, h]
  cases n <;> rfl

theorem scan_token (hcs : skipSpace cs ≠ []) (h : closing? n (skipSpace cs) = none) :
    scan (fuel + 1) (.output n) cs =
      match next (skipSpace cs) with
      | (.fault e, _) => [.fault e]
      | (t, r) => t :: scan fuel (.output (bracketChange t n)) r := by
  rw [scan_output, h]
  generalize skipSpace cs = cs at hcs
  cases cs with
  | nil => exact absurd rfl hcs
  | cons c cs => rfl

theorem scan_fault {e : SyntaxFault} (hcs : skipSpace cs ≠ [])
    (h : closing? n (skipSpace cs) = none) (hnext : (next (skipSpace cs)).1 = .fault e) :
    scan (fuel + 1) (.output n) cs = [.fault e] := by
  rw [scan_token hcs h]
  generalize next (skipSpace cs) = x at hnext
  obtain ⟨t, r⟩ := x
  cases hnext
  rfl

theorem scan_next {t : Token} {r : List Char} (hcs : skipSpace cs ≠ [])
    (h : closing? n (skipSpace cs) = none) (hnext : next (skipSpace cs) = (t, r))
    (ht : ∀ e, t ≠ .fault e) :
    scan (fuel + 1) (.output n) cs = t :: scan fuel (.output (bracketChange t n)) r := by
  rw [scan_token hcs h, hnext]
  cases t <;> first | rfl | exact absurd rfl (ht _)

theorem scan_space (hc : isSpace c = true) :
    scan fuel (.output n) (c :: cs) = scan fuel (.output n) cs := by
  cases fuel with
  | zero => rfl
  | succ fuel =>
    have hskip : skipSpace (c :: cs) = skipSpace cs := List.dropWhile_cons_of_pos hc
    rw [scan_output, scan_output, hskip]

theorem scan_spaces {blank : List Char} (h : ∀ c ∈ blank, isSpace c = true) :
    scan fuel (.output n) (blank ++ cs) = scan fuel (.output n) cs := by
  induction blank with
  | nil => rfl
  | cons c blank ih =>
    rw [List.cons_append, scan_space (h c List.mem_cons_self),
      ih fun c hc => h c (List.mem_cons_of_mem _ hc)]

theorem exists_skipSpace (cs : List Char) :
    ∃ blank, blank ++ skipSpace cs = cs ∧ ∀ c ∈ blank, isSpace c = true :=
  ⟨cs.takeWhile isSpace, List.takeWhile_append_dropWhile, fun _ => List.mem_takeWhile_imp⟩

/-- White space before a token changes nothing. -/
theorem scan_skipSpace_append (cs rest : List Char) :
    scan fuel (.output n) (skipSpace cs ++ rest) = scan fuel (.output n) (cs ++ rest) := by
  obtain ⟨blank, hcs, hblank⟩ := exists_skipSpace cs
  have hscan : scan fuel (.output n) (blank ++ (skipSpace cs ++ rest)) =
      scan fuel (.output n) (skipSpace cs ++ rest) := scan_spaces hblank
  rw [← hscan, ← List.append_assoc, hcs]

theorem scan_skipSpace (cs : List Char) :
    scan fuel (.output n) (skipSpace cs) = scan fuel (.output n) cs := by
  rw [← List.append_nil (skipSpace cs), scan_skipSpace_append, List.append_nil]

theorem scan_brace (n : Nat) : scan (fuel + 1) (.output n) ['\x7d'] = [.sign "\x7d"] := by
  have hclose : closing? n ['\x7d'] = none := by unfold closing?; split <;> simp_all
  rw [scan_token (by decide) hclose]
  show .sign "\x7d" :: scan fuel (.output _) [] = _
  cases fuel with
  | zero => rfl
  | succ fuel => rw [scan_blank rfl]

/-! ## Steps outside of blocks -/

theorem splitText_opening (r : List Char) :
    splitText ('\x7b' :: '\x7b' :: r) = ([], '\x7b' :: '\x7b' :: r) := by
  rw [splitText]
  rfl

theorem openMark_eq_self (h : ∀ c ∈ cs.head?, c ∉ ['-', '+']) : openMark cs = (false, cs) := by
  unfold openMark
  split
  · exact absurd (by decide) (h '-' rfl)
  · exact absurd (by decide) (h '+' rfl)
  · rfl

theorem scan_text_end (h : splitText cs = (cs, [])) :
    scan (fuel + 1) (.text false) cs = ofText cs := by
  rw [scan.eq_def]
  dsimp only
  rw [h]
  cases cs <;> rfl

theorem scan_opening {lead r : List Char} (h : splitText cs = (lead, '\x7b' :: '\x7b' :: r))
    (hmark : openMark r = (false, r)) :
    scan (fuel + 1) (.text false) cs = ofText lead ++ .outputStart :: scan fuel (.output 0) r := by
  cases cs with
  | nil => cases h
  | cons c cs =>
    rw [scan.eq_def]
    dsimp only
    rw [h]
    show ofText (if (openMark r).1 = true then Text.trimEndChars lead else lead) ++
      .outputStart :: scan fuel (.output 0) (openMark r).2 = _
    rw [hmark]
    rfl

/-! ## Names -/

theorem isNameRest_of_isNameStart (h : isNameStart c = true) : isNameRest c = true := by
  simp only [isNameStart, Bool.or_eq_true, isNameRest, Char.isAlphanum] at h ⊢
  exact h.imp_left .inl

theorem toNat_of_isAlpha (h : c.isAlpha = true) :
    65 ≤ c.toNat ∧ c.toNat ≤ 90 ∨ 97 ≤ c.toNat ∧ c.toNat ≤ 122 := by
  have hcase : (c.isUpper || c.isLower) = true := h
  rcases Bool.or_eq_true_iff.1 hcase with hu | hl
  · exact .inl (of_decide_eq_true hu)
  · have hbounds : (decide (97 ≤ c.toNat) && decide (c.toNat ≤ 122)) = true := hl
    simpa using Or.inr hbounds

theorem toNat_of_isDigit (h : c.isDigit = true) : 48 ≤ c.toNat ∧ c.toNat ≤ 57 :=
  Char.isDigit_iff_toNat.1 h

theorem not_digit_of_isNameStart (h : isNameStart c = true) : c.isDigit = false := by
  refine Bool.eq_false_iff.2 fun hd => ?_
  have hdigit := toNat_of_isDigit hd
  rw [isNameStart, Bool.or_eq_true, beq_iff_eq] at h
  rcases h with ha | rfl
  · have := toNat_of_isAlpha ha
    omega
  · cases hd

theorem isSpace_eq_false (h : isNameStart c = true) : isSpace c = false := by
  have hnot : ∀ d ∈ tailChars, isNameStart d = false :=
    List.all_iff_forall_prop.1 (by decide)
  rw [← Bool.not_eq_true]
  intro hs
  rw [hnot c (mem_tailChars_of_isSpace hs)] at h
  cases h

/-- Without a sign of two characters at its start. -/
theorem next_single {r : List Char} (h : ∀ d ∈ r.head?, (c, d) ∉ longSigns) :
    next (c :: r) = next.single c r := by
  cases r with
  | nil => rfl
  | cons d r => rw [next, if_neg fun hm => h d rfl (List.contains_iff_mem.1 hm)]

/-- A name at the start of a text, up to the first character that belongs to no name. -/
theorem next_name {r : List Char} (hc : isNameStart c = true) (hr : ∀ d ∈ r, isNameRest d = true)
    (htail : ∀ d ∈ tail.head?, isNameRest d = false) :
    next (c :: (r ++ tail)) = (.ident (String.ofList (c :: r)), tail) := by
  have hlong : ∀ p ∈ longSigns, isNameStart p.1 = false :=
    List.all_iff_forall_prop.1 (by decide)
  have hshort : ∀ d ∈ '\'' :: '"' :: shortSigns, isNameStart d = false :=
    List.all_iff_forall_prop.1 (by decide)
  have hsign : c ∉ '\'' :: '"' :: shortSigns := fun hm => by simp [hshort c hm] at hc
  have htake : (r ++ tail).takeWhile isNameRest = r := by
    rw [Text.takeWhile_append_stop htail, List.takeWhile_eq_self_iff.2 hr]
  have hdrop : (r ++ tail).dropWhile isNameRest = tail := by
    rw [Text.dropWhile_append_stop htail, List.dropWhile_eq_nil_iff.2 hr, List.nil_append]
  have hsingle : next.single c (r ++ tail) = (.ident (String.ofList (c :: r)), tail) := by
    simp only [List.mem_cons, not_or] at hsign
    simp [next.single, hsign, not_digit_of_isNameStart hc, hc, htake, hdrop]
  rw [next_single fun d _ hm => by simp [hlong _ hm] at hc, hsingle]

/-! ## Texts between quotes before a tail -/

variable {quote : Char}

/-- A character that takes no other along. -/
theorem readQuoted_cons (h : c ≠ '\\') : readQuoted quote (c :: cs) =
    if c == quote then some ([], cs) else (readQuoted quote cs).map fun (s, r) => (c :: s, r) :=
  readQuoted.eq_3 quote c cs fun _ _ hc => absurd hc h

theorem readQuoted_append (hq : quote ≠ '\\') {s r : List Char}
    (h : readQuoted quote cs = some (s, r)) :
    readQuoted quote (cs ++ tail) = some (s, r ++ tail) := by
  fun_induction readQuoted quote cs generalizing s with
  | case1 => cases h
  | case2 c cs ih =>
    obtain ⟨⟨s', r'⟩, h', he⟩ := Option.map_eq_some_iff.1 h
    cases he
    rw [List.cons_append, List.cons_append, readQuoted, ih h']
    rfl
  | case3 c cs _ hc =>
    cases h
    rw [List.cons_append, readQuoted_cons (beq_iff_eq.1 hc ▸ hq), if_pos hc]
  | case4 c cs hesc hc ih =>
    obtain ⟨⟨s', r'⟩, h', he⟩ := Option.map_eq_some_iff.1 h
    cases he
    have hback : c ≠ '\\' := by
      rintro rfl
      cases cs with
      | nil => cases h'
      | cons d cs => exact hesc d cs rfl rfl
    rw [List.cons_append, readQuoted_cons hback, if_neg hc, ih h']
    rfl

theorem readQuoted_eq_none (h : quote ∉ cs) : readQuoted quote cs = none := by
  fun_induction readQuoted quote cs with
  | case1 => rfl
  | case2 c cs ih =>
    rw [ih fun hm => h (List.mem_cons_of_mem _ (List.mem_cons_of_mem _ hm))]
    rfl
  | case3 c cs _ hc => exact absurd (beq_iff_eq.1 hc ▸ List.mem_cons_self) h
  | case4 c cs _ _ ih =>
    rw [ih fun hm => h (List.mem_cons_of_mem _ hm)]
    rfl

/-- A text that is not closed is not closed by a tail without quotes either. -/
theorem readQuoted_append_eq_none (htail : quote ∉ tail) (h : readQuoted quote cs = none) :
    readQuoted quote (cs ++ tail) = none := by
  fun_induction readQuoted quote cs with
  | case1 => exact readQuoted_eq_none htail
  | case2 c cs ih =>
    rw [List.cons_append, List.cons_append, readQuoted, ih (Option.map_eq_none_iff.1 h)]
    rfl
  | case3 => cases h
  | case4 c cs hesc hc ih =>
    have hrest := ih (Option.map_eq_none_iff.1 h)
    by_cases hback : c = '\\'
    · subst hback
      cases cs with
      | cons d cs => exact absurd rfl (hesc d cs rfl)
      | nil =>
        -- the backslash takes the first character of the tail along
        cases tail with
        | nil => exact readQuoted_eq_none fun hm => hc (beq_iff_eq.2 (List.mem_singleton.1 hm).symm)
        | cons d tail =>
          rw [List.cons_append, List.nil_append, readQuoted,
            readQuoted_eq_none fun hm => htail (List.mem_cons_of_mem _ hm)]
          rfl
    · rw [List.cons_append, readQuoted_cons hback, if_neg hc, hrest]
      rfl

theorem suffix_of_readQuoted {s r : List Char} (h : readQuoted quote cs = some (s, r)) :
    r <:+ cs := by
  fun_induction readQuoted quote cs generalizing s with
  | case1 => cases h
  | case2 c cs ih =>
    obtain ⟨⟨s', r'⟩, h', he⟩ := Option.map_eq_some_iff.1 h
    cases he
    exact (ih h').trans ⟨['\\', c], rfl⟩
  | case3 c cs =>
    cases h
    exact List.suffix_cons c _
  | case4 c cs _ _ ih =>
    obtain ⟨⟨s', r'⟩, h', he⟩ := Option.map_eq_some_iff.1 h
    cases he
    exact (ih h').trans (List.suffix_cons c cs)

/-! ## Numbers before a tail -/

/-- The part of a number that a character before `r` belongs to, after the part `part`. -/
def partAt? (part : NumberPart) (c : Char) (r : List Char) : Option NumberPart :=
  match part, c with
  | .integer, '.' => if (r.head?.map Char.isDigit).getD false then some .fraction else none
  | .integer, 'e' => some .exponent
  | .integer, 'E' => some .exponent
  | .fraction, 'e' => some .exponent
  | .fraction, 'E' => some .exponent
  | .exponent, '+' => some .exponentDigits
  | .exponent, '-' => some .exponentDigits
  | .exponent, c =>
    if c.isDigit then some .exponentDigits else if c == '_' then some part else none
  | .radix 16, c => if (hex? c).isSome || c == '_' then some part else none
  | _, c => if c.isDigit || c == '_' then some part else none

theorem numberChars_cons (part : NumberPart) (c : Char) (r : List Char) :
    numberChars part (c :: r) =
      match partAt? part c r with
      | some p => (c :: (numberChars p r).1, (numberChars p r).2.1, (numberChars p r).2.2)
      | none => ([], part, c :: r) := by
  rw [numberChars.eq_def]
  rfl

theorem partAt?_tail (part : NumberPart) {r : List Char} (h : c ∈ tailChars) :
    partAt? part c r = none := by
  have hchars : ∀ d ∈ tailChars,
      d.isDigit = false ∧ hex? d = none ∧ d ∉ ['.', 'e', 'E', '+', '-', '_'] :=
    List.all_iff_forall_prop.1 (by decide)
  obtain ⟨hdigit, hhex, hsign⟩ := hchars c h
  simp only [List.mem_cons, List.not_mem_nil, or_false, not_or] at hsign
  unfold partAt?
  split <;> simp_all

theorem partAt?_append (part : NumberPart) {r : List Char} (htail : IsTail tail) :
    partAt? part c (r ++ tail) = partAt? part c r := by
  cases r with
  | cons d r => rfl
  | nil =>
    obtain ⟨d, tail, rfl, hd⟩ := htail.exists_cons
    have hdigit : ∀ d ∈ tailChars, d.isDigit = false :=
      List.all_iff_forall_prop.1 (by decide)
    unfold partAt?
    split <;> simp [hdigit d hd]

theorem numberChars_append (part : NumberPart) (cs : List Char) (htail : IsTail tail) :
    numberChars part (cs ++ tail) =
      ((numberChars part cs).1, (numberChars part cs).2.1, (numberChars part cs).2.2 ++ tail) := by
  induction cs generalizing part with
  | nil =>
    obtain ⟨d, r, rfl, hd⟩ := htail.exists_cons
    rw [List.nil_append, numberChars_cons, partAt?_tail part hd]
    rfl
  | cons c cs ih =>
    rw [List.cons_append, numberChars_cons, numberChars_cons, partAt?_append part htail]
    cases partAt? part c cs with
    | none => rfl
    | some p => simp only [ih]

theorem numberChars_suffix (part : NumberPart) (cs : List Char) :
    (numberChars part cs).2.2 <:+ cs := by
  induction cs generalizing part with
  | nil => exact List.suffix_rfl
  | cons c cs ih =>
    rw [numberChars_cons]
    cases partAt? part c cs with
    | none => exact List.suffix_rfl
    | some p => exact (ih p).trans (List.suffix_cons c cs)

/-- The base that a number is written in, and the text of its digits. -/
def baseOf (cs : List Char) : Nat × List Char :=
  match cs with
  | '0' :: 'b' :: r => (2, r)
  | '0' :: 'B' :: r => (2, r)
  | '0' :: 'o' :: r => (8, r)
  | '0' :: 'O' :: r => (8, r)
  | '0' :: 'x' :: r => (16, r)
  | '0' :: 'X' :: r => (16, r)
  | r => (10, r)

/-- The token of the characters of a number, and what is left. -/
def numberOf (base : Nat) (digits : List Char × NumberPart × List Char) : Token × List Char :=
  let (raw, part, rest) := digits
  if raw.getLast? == some '_' then (.fault .malformed, rest)
  else
    let whole := match part with
      | .integer => true
      | .radix _ => true
      | _ => false
    if whole then
      match natOfBase? base (raw.filter (· ≠ '_')) with
      | some n => (if n < Nat.pow 2 128 then .int n else .fault .malformed, rest)
      | none => (.fault .malformed, rest)
    else match Decimal.double? (String.ofList (raw.filter (· ≠ '_'))) with
      | some x => (.float x, rest)
      | none => (.fault .malformed, rest)

/-- What is left does not bear on the token. -/
theorem numberOf_rest (base : Nat) (raw : List Char) (part : NumberPart) (rest : List Char) :
    numberOf base (raw, part, rest) = ((numberOf base (raw, part, [])).1, rest) := by
  unfold numberOf
  dsimp only
  split
  · rfl
  · generalize natOfBase? base _ = whole
    generalize Decimal.double? _ = x
    cases part <;> cases whole <;> cases x <;> rfl

/-- The part that the digits of a base begin with. -/
def firstPart (base : Nat) : NumberPart := if base == 10 then .integer else .radix base

theorem readNumber_eq (cs : List Char) :
    readNumber cs =
      numberOf (baseOf cs).1 (numberChars (firstPart (baseOf cs).1) (baseOf cs).2) := by
  rw [readNumber.eq_def]
  rfl

theorem baseOf_append (hcs : cs ≠ []) (htail : IsTail tail) :
    baseOf (cs ++ tail) = ((baseOf cs).1, (baseOf cs).2 ++ tail) := by
  match cs with
  | [] => exact absurd rfl hcs
  | [c] =>
    obtain ⟨d, r, rfl, hd⟩ := htail.exists_cons
    have hchars : ∀ d ∈ tailChars, d ∉ ['b', 'B', 'o', 'O', 'x', 'X'] :=
      List.all_iff_forall_prop.1 (by decide)
    have hd := hchars d hd
    simp only [List.mem_cons, List.not_mem_nil, or_false, not_or] at hd
    unfold baseOf
    split <;> simp_all
  | c :: d :: r =>
    unfold baseOf
    split <;> simp_all

theorem readNumber_append (hcs : cs ≠ []) (htail : IsTail tail) :
    readNumber (cs ++ tail) = ((readNumber cs).1, (readNumber cs).2 ++ tail) := by
  rw [readNumber_eq, readNumber_eq, baseOf_append hcs htail, numberChars_append _ _ htail]
  obtain ⟨raw, part, rest⟩ := numberChars (firstPart (baseOf cs).1) (baseOf cs).2
  generalize (baseOf cs).1 = base
  rw [numberOf_rest base raw part (rest ++ tail), numberOf_rest base raw part rest]

theorem partAt?_digit {r : List Char} (hc : c.isDigit = true) :
    partAt? .integer c r = some .integer := by
  unfold partAt?
  split <;> simp_all

theorem readNumber_suffix {r : List Char} (hc : c.isDigit = true) :
    (readNumber (c :: r)).2 <:+ r := by
  have hrest : ∀ base digits, (numberOf base digits).2 = digits.2.2 := by
    rintro base ⟨raw, part, rest⟩
    rw [numberOf_rest]
  have hlong : ∀ d rest part, (numberChars part rest).2.2 <:+ (d :: rest : List Char) :=
    fun d rest part => (numberChars_suffix part rest).trans (List.suffix_cons d rest)
  rw [readNumber_eq, hrest]
  generalize hcs : c :: r = cs
  unfold baseOf
  split <;> cases hcs
  iterate 6 exact hlong _ _ _
  rw [firstPart, numberChars_cons]
  simp only [beq_self_eq_true, if_true, partAt?_digit hc]
  exact numberChars_suffix _ _

/-! ## Tokens before a tail -/

/-- A token takes one character at least. -/
theorem next_suffix (c : Char) (r : List Char) : (next (c :: r)).2 <:+ r := by
  have hsingle : (next.single c r).2 <:+ r := by
    unfold next.single
    split
    · exact List.suffix_rfl
    · split
      · split
        · exact List.nil_suffix
        · rename_i hread
          split
          · exact suffix_of_readQuoted hread
          · exact List.nil_suffix
      · split
        · rename_i hdigit
          exact readNumber_suffix hdigit
        · split
          · exact List.dropWhile_suffix _
          · exact List.nil_suffix
  cases r with
  | nil => exact hsingle
  | cons d r =>
    rw [next]
    split
    · exact List.suffix_cons d r
    · exact hsingle

/-- No token inside a block is the end of the block. -/
theorem next_ne_outputEnd (cs : List Char) : (next cs).1 ≠ .outputEnd := by
  have hnumber (base : Nat) (digits : List Char × NumberPart × List Char) :
      (numberOf base digits).1 ≠ .outputEnd := by
    unfold numberOf
    dsimp only
    repeat' split
    all_goals exact Token.noConfusion
  have hsingle (c : Char) (r : List Char) : (next.single c r).1 ≠ .outputEnd := by
    unfold next.single
    split
    · exact Token.noConfusion
    · split
      · split
        · exact Token.noConfusion
        · split <;> exact Token.noConfusion
      · split
        · rw [readNumber_eq]
          exact hnumber _ _
        · split <;> exact Token.noConfusion
  unfold next
  split
  · exact Token.noConfusion
  · split
    · split
      · exact Token.noConfusion
      · exact hsingle _ _
    · exact hsingle _ _

/-- What a text begins with, when a tail follows it: the same token, and the tail is left with what
is left of the text. A fault stays one. -/
theorem next_append (hcs : cs ≠ []) (htail : IsTail tail) :
    (next (cs ++ tail)).1 = (next cs).1 ∧
      ((∀ e, (next cs).1 ≠ .fault e) → (next (cs ++ tail)).2 = (next cs).2 ++ tail) := by
  obtain ⟨c, r, rfl⟩ := List.exists_cons_of_ne_nil hcs
  have hsingle : (next.single c (r ++ tail)).1 = (next.single c r).1 ∧
      ((∀ e, (next.single c r).1 ≠ .fault e) →
        (next.single c (r ++ tail)).2 = (next.single c r).2 ++ tail) := by
    unfold next.single
    split
    · exact ⟨rfl, fun _ => rfl⟩
    · split
      · rename_i hquote
        have hback : c ≠ '\\' := by
          rintro rfl
          cases hquote
        cases hread : readQuoted c r with
        | none =>
          have hchars : ∀ d ∈ tailChars, (d == '\'' || d == '"') = false :=
            List.all_iff_forall_prop.1 (by decide)
          have hno : c ∉ tail := fun hm => by simp [hchars c (htail.mem c hm)] at hquote
          rw [readQuoted_append_eq_none hno hread]
          exact ⟨rfl, fun h => absurd rfl (h _)⟩
        | some x =>
          obtain ⟨raw, rest⟩ := x
          rw [readQuoted_append hback hread]
          dsimp only
          cases unescape none raw with
          | none => exact ⟨rfl, fun h => absurd rfl (h _)⟩
          | some s => exact ⟨rfl, fun _ => rfl⟩
      · split
        · rw [← List.cons_append, readNumber_append (List.cons_ne_nil _ _) htail]
          exact ⟨rfl, fun _ => rfl⟩
        · split
          · have hchars : ∀ d ∈ tailChars, isNameRest d = false :=
              List.all_iff_forall_prop.1 (by decide)
            have hstop : ∀ d ∈ tail.head?, isNameRest d = false := fun d hd =>
              hchars d (htail.mem d (List.mem_of_mem_head? hd))
            rw [Text.takeWhile_append_stop hstop, Text.dropWhile_append_stop hstop]
            exact ⟨rfl, fun _ => rfl⟩
          · exact ⟨rfl, fun h => absurd rfl (h _)⟩
  cases r with
  | nil =>
    obtain ⟨d, t, rfl, hd⟩ := htail.exists_cons
    have hchars : ∀ p ∈ longSigns, p.2 ∉ tailChars :=
      List.all_iff_forall_prop.1 (by decide)
    rw [List.cons_append, next_single fun e he hm => hchars _ hm (by cases he; exact hd)]
    exact hsingle
  | cons d r =>
    rw [List.cons_append, List.cons_append, next, next]
    split
    · exact ⟨rfl, fun _ => rfl⟩
    · exact hsingle

end Runbook.Template.Token
