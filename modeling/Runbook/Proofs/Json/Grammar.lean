import Mathlib
import Runbook.Json.Reader
import Runbook.Proofs.Text.Digits

/-!
# The grammar of JSON documents

What a text must be to be a JSON document, as relations between a text and what is left of it behind
the part they name: `Grammar.Value cs r` says that `cs` is a value followed by `r`. The grammar
knows nothing of the reader: it has no limit of depth or size, and gives no values. All that is read
is a document (`isDocument_of_read`), and a document begins with one of a few characters
(`IsDocument.begins`).
-/

namespace Runbook.Json

namespace Grammar

/-! ## Tokens -/

/-- White space, or none. -/
inductive Blank : List Char → List Char → Prop
  | none (r : List Char) : Blank r r
  | more {c : Char} {cs r : List Char} (hc : c = ' ' ∨ c = '\n' ∨ c = '\t' ∨ c = '\r')
    (h : Blank cs r) : Blank (c :: cs) r

/-- Decimal digits, at least one. -/
inductive Digits : List Char → List Char → Prop
  | last {c : Char} {r : List Char} (hc : c.isDigit = true) : Digits (c :: r) r
  | more {c : Char} {cs r : List Char} (hc : c.isDigit = true) (h : Digits cs r) :
    Digits (c :: cs) r

/-- The digits of a number before its point; a zero stands alone. -/
inductive Whole : List Char → List Char → Prop
  | zero (r : List Char) : Whole ('0' :: r) r
  | digits {c : Char} {cs r : List Char} (hc : c ≠ '0') (h : Digits (c :: cs) r) : Whole (c :: cs) r

/-- A decimal point with digits, or nothing. -/
inductive Fraction : List Char → List Char → Prop
  | none (r : List Char) : Fraction r r
  | some {cs r : List Char} (h : Digits cs r) : Fraction ('.' :: cs) r

/-- A power of ten, or nothing. -/
inductive Exponent : List Char → List Char → Prop
  | none (r : List Char) : Exponent r r
  | unsigned {e : Char} {cs r : List Char} (he : e = 'e' ∨ e = 'E') (h : Digits cs r) :
    Exponent (e :: cs) r
  | signed {e s : Char} {cs r : List Char} (he : e = 'e' ∨ e = 'E') (hs : s = '+' ∨ s = '-')
    (h : Digits cs r) : Exponent (e :: s :: cs) r

/-- A number without a sign. -/
inductive Unsigned : List Char → List Char → Prop
  | mk {cs a b r : List Char} (hw : Whole cs a) (hf : Fraction a b) (he : Exponent b r) :
    Unsigned cs r

/-- A hexadecimal digit. -/
def IsHex (c : Char) : Prop :=
  '0' ≤ c ∧ c ≤ '9' ∨ 'a' ≤ c ∧ c ≤ 'f' ∨ 'A' ≤ c ∧ c ≤ 'F'

/-- One character between quotes. -/
inductive Letter : List Char → List Char → Prop
  | plain {c : Char} {r : List Char} (hc : 32 ≤ c.toNat) (hq : c ≠ '"') (hs : c ≠ '\\') :
    Letter (c :: r) r
  | escape {c : Char} {r : List Char} (hc : c ∈ ['"', '\\', '/', 'b', 'f', 'n', 'r', 't']) :
    Letter ('\\' :: c :: r) r
  | code {a b c d : Char} {r : List Char} (ha : IsHex a) (hb : IsHex b) (hc : IsHex c)
    (hd : IsHex d) : Letter ('\\' :: 'u' :: a :: b :: c :: d :: r) r

/-- The characters of a text, up to the quote that ends it. -/
inductive Letters : List Char → List Char → Prop
  | close (r : List Char) : Letters ('"' :: r) r
  | more {cs a r : List Char} (hl : Letter cs a) (h : Letters a r) : Letters cs r

/-! ## Values -/

mutual
/-- A value. -/
inductive Value : List Char → List Char → Prop
  | null (r : List Char) : Value ('n' :: 'u' :: 'l' :: 'l' :: r) r
  | trueWord (r : List Char) : Value ('t' :: 'r' :: 'u' :: 'e' :: r) r
  | falseWord (r : List Char) : Value ('f' :: 'a' :: 'l' :: 's' :: 'e' :: r) r
  | positive {cs r : List Char} (h : Unsigned cs r) : Value cs r
  | negative {cs r : List Char} (h : Unsigned cs r) : Value ('-' :: cs) r
  | text {cs r : List Char} (h : Letters cs r) : Value ('"' :: cs) r
  | emptyList {cs r : List Char} (h : Blank cs (']' :: r)) : Value ('[' :: cs) r
  | list {cs r : List Char} (h : Items cs r) : Value ('[' :: cs) r
  | emptyObject {cs r : List Char} (h : Blank cs ('}' :: r)) : Value ('{' :: cs) r
  | object {cs r : List Char} (h : Members cs r) : Value ('{' :: cs) r

/-- The items of an array, with the bracket that ends it. -/
inductive Items : List Char → List Char → Prop
  | last {cs a b r : List Char} (hs : Blank cs a) (hv : Value a b) (he : Blank b (']' :: r)) :
    Items cs r
  | more {cs a b c r : List Char} (hs : Blank cs a) (hv : Value a b) (he : Blank b (',' :: c))
    (h : Items c r) : Items cs r

/-- The fields of an object, with the brace that ends it. -/
inductive Members : List Char → List Char → Prop
  | last {cs a b c d e r : List Char} (hs : Blank cs ('"' :: a)) (hk : Letters a b)
    (hc : Blank b (':' :: c)) (hb : Blank c d) (hv : Value d e) (he : Blank e ('}' :: r)) :
    Members cs r
  | more {cs a b c d e f r : List Char} (hs : Blank cs ('"' :: a)) (hk : Letters a b)
    (hc : Blank b (':' :: c)) (hb : Blank c d) (hv : Value d e) (he : Blank e (',' :: f))
    (h : Members f r) : Members cs r
end

/-! ## What is read -/

variable {cs r ws : List Char} {c e : Char} {v w : Json} {fuel depth significand after : Nat}
  {exponent : Int} {positive positiveExp : Bool} {t : String}

theorem blank_skipSpace (cs : List Char) : Blank cs (skipSpace cs) := by
  induction cs with
  | nil => exact .none []
  | cons c cs ih =>
    rw [skipSpace, List.dropWhile_cons]
    split
    · rename_i hc
      exact .more (by simpa [isSpace, or_assoc] using hc) ih
    · exact .none _

theorem Blank.trans {a b : List Char} (h : Blank a b) (hb : Blank b r) : Blank a r := by
  induction h with
  | none => exact hb
  | more hc _ ih => exact .more hc (ih hb)

theorem eq_of_readWord (h : readWord w ws cs = .ok (v, r)) : cs = ws ++ r := by
  induction ws generalizing cs with
  | nil =>
    cases h
    rfl
  | cons x ws ih =>
    cases cs with
    | nil => cases h
    | cons c cs =>
      rw [readWord] at h
      split at h
      · rename_i hx
        rw [ih h, beq_iff_eq.1 hx, List.cons_append]
      · cases h

/-! ### Numbers -/

theorem digits_dropWhile (hc : c.isDigit = true) :
    Digits (c :: cs) (cs.dropWhile Char.isDigit) := by
  induction cs generalizing c with
  | nil => exact .last hc
  | cons d cs ih =>
    rw [List.dropWhile_cons]
    split
    · rename_i hd
      exact .more hc (ih hd)
    · exact .last hc

theorem eq_of_doubleOf (h : doubleOf positive significand exponent cs = .ok (v, r)) : r = cs := by
  unfold doubleOf at h
  split at h <;> cases h
  rfl

theorem eq_of_readExponentDigits {n : Nat}
    (h : readExponentDigits positive positiveExp significand exponent n cs = .ok (v, r)) :
    r = cs.dropWhile Char.isDigit := by
  induction cs generalizing n with
  | nil => exact eq_of_doubleOf h
  | cons c cs ih =>
    rw [readExponentDigits] at h
    rw [List.dropWhile_cons]
    split at h
    · rename_i hc
      rw [if_pos hc]
      dsimp only at h
      split at h
      · split at h <;> cases h
        rfl
      · exact ih h
    · rename_i hc
      rw [if_neg hc]
      exact eq_of_doubleOf h

theorem exponent_of_readExponent (he : e = 'e' ∨ e = 'E')
    (h : readExponent positive significand exponent cs = .ok (v, r)) : Exponent (e :: cs) r := by
  unfold readExponent at h
  split at h
  rename_i b digits hsign
  have hdigits : Digits digits r := by
    split at h
    · cases h
    · split at h
      · rename_i hc
        rw [eq_of_readExponentDigits h]
        exact digits_dropWhile hc
      · cases h
  split at hsign <;> cases hsign
  · exact .signed he (.inl rfl) hdigits
  · exact .signed he (.inr rfl) hdigits
  · exact .unsigned he hdigits

theorem exponent_of_readAfterFraction
    (h : readAfterFraction positive significand exponent cs = .ok (v, r)) : Exponent cs r := by
  unfold readAfterFraction at h
  split at h
  · exact exponent_of_readExponent (.inl rfl) h
  · exact exponent_of_readExponent (.inr rfl) h
  · rw [eq_of_doubleOf h]
    exact .none cs

theorem exponent_of_readFraction
    (h : readFraction positive significand exponent after cs = .ok (v, r)) :
    Exponent (cs.dropWhile Char.isDigit) r ∧
      (after = 0 → ∃ c cs', cs = c :: cs' ∧ c.isDigit = true) := by
  induction cs generalizing significand after with
  | nil =>
    rw [readFraction] at h
    split at h
    · cases h
    · rename_i ha
      rw [eq_of_doubleOf h]
      exact ⟨.none [], fun hz => absurd (beq_iff_eq.2 hz) ha⟩
  | cons c cs ih =>
    rw [readFraction] at h
    rw [List.dropWhile_cons]
    split at h
    · rename_i hc
      refine ⟨?_, fun _ => ⟨c, cs, rfl, hc⟩⟩
      rw [if_pos hc]
      dsimp only at h
      split at h
      · exact exponent_of_readAfterFraction h
      · exact (ih h).1
    · rename_i hc
      rw [if_neg hc]
      split at h
      · cases h
      · rename_i ha
        exact ⟨exponent_of_readAfterFraction h, fun hz => absurd (beq_iff_eq.2 hz) ha⟩

/-- A fraction and a power of ten, each of which may be missing. -/
def Tail (cs r : List Char) : Prop := ∃ a, Fraction cs a ∧ Exponent a r

theorem tail_of_readFraction (h : readFraction positive significand exponent 0 cs = .ok (v, r)) :
    Tail ('.' :: cs) r := by
  obtain ⟨he, hfirst⟩ := exponent_of_readFraction h
  obtain ⟨c, cs', rfl, hc⟩ := hfirst rfl
  rw [List.dropWhile_cons, if_pos hc] at he
  exact ⟨_, .some (digits_dropWhile hc), he⟩

theorem tail_of_readLong {n : Nat} (h : readLong positive significand n cs = .ok (v, r)) :
    Tail (cs.dropWhile Char.isDigit) r := by
  induction cs generalizing n with
  | nil =>
    rw [eq_of_doubleOf h]
    exact ⟨_, .none _, .none _⟩
  | cons c cs ih =>
    rw [readLong] at h
    rw [List.dropWhile_cons]
    split at h
    · rename_i hc
      rw [if_pos hc]
      exact ih h
    · rename_i hc
      rw [if_neg hc]
      split at h
      · rename_i hdot
        rw [beq_iff_eq.1 hdot]
        exact tail_of_readFraction h
      · exact ⟨_, .none _, exponent_of_readAfterFraction h⟩

theorem tail_of_readAfterInteger (h : readAfterInteger positive significand cs = .ok (v, r)) :
    Tail cs r := by
  unfold readAfterInteger at h
  split at h
  · exact tail_of_readFraction h
  · exact ⟨_, .none _, exponent_of_readExponent (.inl rfl) h⟩
  · exact ⟨_, .none _, exponent_of_readExponent (.inr rfl) h⟩
  · obtain rfl : cs = r := by
      split_ifs at h <;> exact (Prod.mk.inj (Except.ok.inj h)).2
    exact ⟨_, .none _, .none _⟩

theorem tail_of_readInteger (h : readInteger positive significand cs = .ok (v, r)) :
    Tail (cs.dropWhile Char.isDigit) r := by
  induction cs generalizing significand with
  | nil => exact tail_of_readAfterInteger h
  | cons c cs ih =>
    rw [readInteger] at h
    split at h
    · rename_i hc
      dsimp only at h
      split at h
      · exact tail_of_readLong h
      · rw [List.dropWhile_cons, if_pos hc]
        exact ih h
    · rename_i hc
      rw [List.dropWhile_cons, if_neg hc]
      exact tail_of_readAfterInteger h

/-- What is read as a number is one. -/
theorem unsigned_of_readNumber (h : readNumber positive cs = .ok (v, r)) : Unsigned cs r := by
  unfold readNumber at h
  split at h
  · cases h
  · rename_i cs
    have htail : Tail cs r := by
      split at h
      · split at h
        · cases h
        · exact tail_of_readAfterInteger h
      · exact tail_of_readAfterInteger h
    obtain ⟨a, hf, he⟩ := htail
    exact .mk (.zero cs) hf he
  · rename_i c cs h0
    split at h
    · rename_i hc
      obtain ⟨a, hf, he⟩ := tail_of_readInteger h
      exact .mk (.digits h0 (digits_dropWhile hc)) hf he
    · cases h

/-! ### Texts -/

theorem isHex_of_hexValue? {n : Nat} (h : hexValue? c = some n) : IsHex c := by
  unfold hexValue? at h
  split_ifs at h <;> simp_all [IsHex]

theorem exists_of_readHex4 {n : Nat} (h : readHex4 cs = .ok (n, r)) :
    ∃ a b c d, cs = a :: b :: c :: d :: r ∧ IsHex a ∧ IsHex b ∧ IsHex c ∧ IsHex d := by
  unfold readHex4 at h
  split at h
  · rename_i a b c d r'
    split at h
    · rename_i ha hb hc hd
      cases h
      exact ⟨a, b, c, d, rfl, isHex_of_hexValue? ha, isHex_of_hexValue? hb, isHex_of_hexValue? hc,
        isHex_of_hexValue? hd⟩
    · cases h
  · cases h

/-- The escape of a number stands for one character or, with a second, for half of one. -/
theorem letters_of_readUnicode {x : List Char} (h : readUnicode cs = .ok (c, r))
    (hr : Letters r x) : Letters ('\\' :: 'u' :: cs) x := by
  unfold readUnicode at h
  split at h
  · cases h
  · rename_i n r' hread
    obtain ⟨a, b, c, d, rfl, ha, hb, hc, hd⟩ := exists_of_readHex4 hread
    refine .more (.code ha hb hc hd) ?_
    split at h
    · cases h
    · split at h
      · split at h
        · cases h
        · cases h
        · split at h
          · cases h
          · rename_i hread'
            obtain ⟨a, b, c, d, rfl, ha, hb, hc, hd⟩ := exists_of_readHex4 hread'
            split at h
            · obtain ⟨-, rfl⟩ := Prod.mk.inj (Except.ok.inj h)
              exact .more (.code ha hb hc hd) hr
            · cases h
        · cases h
        · cases h
      · cases h
        exact hr

theorem letters_of_readEscape {x : List Char} (h : readEscape cs = .ok (c, r))
    (hr : Letters r x) : Letters ('\\' :: cs) x := by
  unfold readEscape at h
  split at h
  · cases h
  · exact letters_of_readUnicode h hr
  · split at h
    all_goals
      cases h
      try exact .more (.escape (by simp)) hr

theorem letters_of_readText {acc : List Char} (h : readText fuel acc cs = .ok (t, r)) :
    Letters cs r := by
  induction fuel generalizing acc cs with
  | zero => cases h
  | succ fuel ih =>
    unfold readText at h
    split at h
    · cases h
    · cases h
      exact .close _
    · split at h
      · cases h
      · rename_i hread
        exact letters_of_readEscape hread (ih h)
    · rename_i c cs hquote hslash
      split at h
      · cases h
      · rename_i hc
        exact .more (.plain (by omega) hquote hslash) (ih h)

/-! ### Values -/

/-- What may follow an item: the end of the items, or more of them. -/
def ItemsRest (cs r : List Char) : Prop :=
  Blank cs (']' :: r) ∨ ∃ a, Blank cs (',' :: a) ∧ Items a r

/-- What may follow a field: the end of the fields, or more of them. -/
def MembersRest (cs r : List Char) : Prop :=
  Blank cs ('}' :: r) ∨ ∃ a, Blank cs (',' :: a) ∧ Members a r

theorem items_of_rest {a b : List Char} (hs : Blank cs a) (hv : Value a b) (h : ItemsRest b r) :
    Items cs r := by
  rcases h with he | ⟨c, he, h⟩
  · exact .last hs hv he
  · exact .more hs hv he h

theorem members_of_rest {a b c d e : List Char} (hs : Blank cs ('"' :: a)) (hk : Letters a b)
    (hc : Blank b (':' :: c)) (hb : Blank c d) (hv : Value d e) (h : MembersRest e r) :
    Members cs r := by
  rcases h with he | ⟨f, he, h⟩
  · exact .last hs hk hc hb hv he
  · exact .more hs hk hc hb hv he h

/-- The fuel reads only values, items and fields of the grammar. -/
structure ReadsOnly (fuel : Nat) : Prop where
  value : ∀ {depth cs v r}, readValue fuel depth cs = .ok (v, r) →
    ∃ a, Blank cs a ∧ Value a r
  items : ∀ {depth first acc cs v r}, readItems fuel depth first acc cs = .ok (v, r) →
    if first then Value ('[' :: cs) r else ItemsRest cs r
  fields : ∀ {depth first acc cs v r}, readFields fuel depth first acc cs = .ok (v, r) →
    if first then Value ('{' :: cs) r else MembersRest cs r

theorem value_of_readValue (ih : ReadsOnly fuel)
    (h : readValue (fuel + 1) depth cs = .ok (v, r)) : ∃ a, Blank cs a ∧ Value a r := by
  refine ⟨_, blank_skipSpace cs, ?_⟩
  unfold readValue at h
  split at h
  · cases h
  · rename_i heq
    rw [heq, eq_of_readWord h]
    exact .null r
  · rename_i heq
    rw [heq, eq_of_readWord h]
    exact .trueWord r
  · rename_i heq
    rw [heq, eq_of_readWord h]
    exact .falseWord r
  · rename_i heq
    rw [heq]
    exact .negative (unsigned_of_readNumber h)
  · rename_i heq
    rw [heq]
    split at h
    · cases h
    · rename_i hread
      cases h
      exact .text (letters_of_readText hread)
  · rename_i heq
    rw [heq]
    split at h
    · cases h
    · cases h
    · exact ih.items h
  · rename_i heq
    rw [heq]
    split at h
    · cases h
    · cases h
    · exact ih.fields h
  · rename_i heq
    rw [heq]
    split at h
    · exact .positive (unsigned_of_readNumber h)
    · cases h

theorem items_of_readItems (ih : ReadsOnly fuel) {first : Bool} {acc : List Json}
    (h : readItems (fuel + 1) depth first acc cs = .ok (v, r)) :
    if first then Value ('[' :: cs) r else ItemsRest cs r := by
  have hspace := blank_skipSpace cs
  unfold readItems at h
  split at h
  · cases h
  · rename_i heq
    cases h
    rw [heq] at hspace
    cases first
    · exact .inl hspace
    · exact .emptyList hspace
  · rename_i c cs' hclose heq
    rw [heq] at hspace
    dsimp only at h
    split at h
    · cases h
    · rename_i start hitem
      split at h
      · cases h
      · rename_i b hread
        obtain ⟨a, ha, hv⟩ := ih.value hread
        have hrest : ItemsRest b r := ih.items h
        cases first with
        | true =>
          cases hitem
          exact .list (items_of_rest (hspace.trans ha) hv hrest)
        | false =>
          rw [if_neg (by decide)] at hitem ⊢
          split at hitem
          · rename_i hcomma
            rw [beq_iff_eq.1 hcomma] at hspace
            have hblank := blank_skipSpace cs'
            refine .inr ⟨cs', hspace, ?_⟩
            split at hitem
            · cases hitem
            · cases hitem
            · cases hitem
              exact items_of_rest (hblank.trans ha) hv hrest
          · cases hitem

theorem members_of_readFields (ih : ReadsOnly fuel) {first : Bool} {acc : Fields}
    (h : readFields (fuel + 1) depth first acc cs = .ok (v, r)) :
    if first then Value ('{' :: cs) r else MembersRest cs r := by
  have hspace := blank_skipSpace cs
  unfold readFields at h
  split at h
  · cases h
  · rename_i heq
    cases h
    rw [heq] at hspace
    cases first
    · exact .inl hspace
    · exact .emptyObject hspace
  · rename_i c cs' hclose heq
    rw [heq] at hspace
    dsimp only at h
    split at h
    · cases h
    · rename_i start hkey
      -- What follows the key is the same for the first field and for the others.
      have hfield {x : List Char} (hx : Blank x ('"' :: start)) : Members x r := by
        split at h
        · cases h
        · rename_i k a htext
          have hcolon := blank_skipSpace a
          split at h
          · cases h
          · rename_i b heq'
            rw [heq'] at hcolon
            split at h
            · cases h
            · rename_i hread
              obtain ⟨d, hd, hv⟩ := ih.value hread
              exact members_of_rest hx (letters_of_readText htext) hcolon hd hv (ih.fields h)
          · cases h
      cases first with
      | true =>
        rw [if_pos rfl] at hkey
        split at hkey
        · rename_i hquote
          cases hkey
          rw [beq_iff_eq.1 hquote] at hspace
          exact .object (hfield hspace)
        · cases hkey
      | false =>
        rw [if_neg (by decide)] at hkey ⊢
        split at hkey
        · rename_i hcomma
          rw [beq_iff_eq.1 hcomma] at hspace
          have hblank := blank_skipSpace cs'
          refine .inr ⟨cs', hspace, ?_⟩
          split at hkey
          · cases hkey
          · rename_i heq'
            cases hkey
            rw [heq'] at hblank
            exact hfield hblank
          · cases hkey
          · cases hkey
        · cases hkey

theorem readsOnly (fuel : Nat) : ReadsOnly fuel := by
  induction fuel with
  | zero =>
    constructor
    all_goals
      intros
      rename_i h
      cases h
  | succ fuel ih =>
    exact ⟨value_of_readValue ih, items_of_readItems ih, members_of_readFields ih⟩

/-! ### Beginnings -/

/-- What a value begins with. -/
def Begins (c : Char) : Prop := c.isDigit = true ∨ c ∈ ['n', 't', 'f', '-', '"', '[', '{']

instance (c : Char) : Decidable (Begins c) := inferInstanceAs (Decidable (_ ∨ _))

theorem Begins.isSpace_eq_false (h : Begins c) : isSpace c = false := by
  have hword : ∀ d ∈ ['n', 't', 'f', '-', '"', '[', '{'], isSpace d = false := by simp [isSpace]
  rcases h with h | h
  · have hne {d : Char} (hd : d.isDigit = false) : c ≠ d := ne_of_isDigit h hd
    simp [isSpace, hne (d := ' ') rfl, hne (d := '\n') rfl, hne (d := '\t') rfl,
      hne (d := '\r') rfl]
  · exact hword c h

theorem Value.begins (h : Value cs r) : ∃ c t, cs = c :: t ∧ Begins c := by
  cases h with
  | positive h =>
    obtain ⟨hw, -, -⟩ := h
    cases hw with
    | zero => exact ⟨'0', _, rfl, .inl rfl⟩
    | digits _ hd => exact ⟨_, _, rfl, .inl (by cases hd <;> assumption)⟩
  | _ => exact ⟨_, _, rfl, .inr (by simp)⟩

theorem skipSpace_of_blank {t : List Char} (h : Blank cs (c :: t)) (hc : isSpace c = false) :
    skipSpace cs = c :: t := by
  generalize hr : c :: t = r at h
  induction h with
  | none =>
    rw [← hr]
    exact List.dropWhile_cons_of_neg (by simp [hc])
  | more hd _ ih =>
    rw [skipSpace, List.dropWhile_cons_of_pos (by simpa [isSpace, or_assoc] using hd)]
    exact ih hr

end Grammar

/-- The text is a JSON document. -/
def IsDocument (s : String) : Prop :=
  ∃ a b, Grammar.Blank s.toList a ∧ Grammar.Value a b ∧ Grammar.Blank b []

/-- Behind white space a document begins with one of a few characters. -/
theorem IsDocument.begins {s : String} (h : IsDocument s) :
    ∃ c ∈ (skipSpace s.toList).head?, Grammar.Begins c := by
  obtain ⟨a, b, ha, hv, -⟩ := h
  obtain ⟨c, t, rfl, hc⟩ := hv.begins
  exact ⟨c, by rw [Grammar.skipSpace_of_blank ha hc.isSpace_eq_false]; rfl, hc⟩

/-- **What is read** is a document. -/
theorem isDocument_of_read {s : String} {v : Json} (h : read s = .ok v) : IsDocument s := by
  unfold read at h
  dsimp only at h
  split at h
  · rename_i hread
    unfold readChars at hread
    split at hread
    · cases hread
    · rename_i r hvalue
      obtain ⟨a, ha, hv⟩ := (Grammar.readsOnly _).value hvalue
      have hrest := Grammar.blank_skipSpace r
      split at hread
      · rename_i heq
        exact ⟨a, r, ha, hv, heq ▸ hrest⟩
      · cases hread
  · cases h

end Runbook.Json
