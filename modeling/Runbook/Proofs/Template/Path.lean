import Runbook.Proofs.Template.Mention
import Runbook.Proofs.Template.Scan

/-!
# Dotted paths

A path is a name and keys after it, `a.b.c`. Inside a block it is split into its names and the
points between them (`Token.scan_path`), it parses to attributes of attributes of a name
(`Parse.expr_path`), and its value is what going down the tree of a context finds
(`Path.eval_expr`).
-/

namespace Runbook.Template

/-- Whether a text is a name: a letter or an underscore, then letters, digits and underscores. -/
def isName (s : String) : Bool :=
  match s.toList with
  | [] => false
  | c :: r => Token.isNameStart c && r.all Token.isNameRest

theorem exists_of_isName {s : String} (h : isName s = true) :
    ∃ c r, s = String.ofList (c :: r) ∧ Token.isNameStart c = true ∧
      ∀ d ∈ r, Token.isNameRest d = true := by
  unfold isName at h
  split at h
  · cases h
  · rename_i c r hs
    rw [Bool.and_eq_true, List.all_eq_true] at h
    exact ⟨c, r, by rw [← hs, String.ofList_toList], h⟩

theorem toList_ne_nil_of_isName {s : String} (h : isName s = true) : s.toList ≠ [] := by
  obtain ⟨c, r, rfl, -, -⟩ := exists_of_isName h
  rw [String.toList_ofList]
  exact List.cons_ne_nil c r

/-- Words that are no name where an expression begins. -/
def keywords : List String := ["not", "true", "True", "false", "False", "none", "None"]

/-- A name with keys after it. -/
structure Path where
  first : String
  keys : List String
  isName_first : isName first = true
  isName_keys : ∀ k ∈ keys, isName k = true
  first_not_keyword : first ∉ keywords

namespace Path

/-- A name on its own. -/
def ofName (x : String) (hx : isName x = true) (hk : x ∉ keywords) : Path := ⟨x, [], hx, nofun, hk⟩

/-- Keys, each after a point. -/
def dotted : List String → List Char
  | [] => []
  | k :: ks => '.' :: k.toList ++ dotted ks

/-- The characters of a path. -/
def chars (p : Path) : List Char := p.first.toList ++ dotted p.keys

/-- The tokens of keys, each after a point. -/
def dottedTokens : List String → List Token
  | [] => []
  | k :: ks => .sign "." :: .ident k :: dottedTokens ks

/-- The tokens of a path. -/
def tokens (p : Path) : List Token := .ident p.first :: dottedTokens p.keys

theorem length_dottedTokens (ks : List String) : (dottedTokens ks).length = 2 * ks.length := by
  induction ks with
  | nil => rfl
  | cons k ks ih =>
    simp only [dottedTokens, List.length_cons, ih]
    omega

theorem length_tokens (p : Path) : p.tokens.length = 2 * p.keys.length + 1 := by
  rw [tokens, List.length_cons, length_dottedTokens]

/-- The expression of a path. -/
def expr (p : Path) : Expr := p.keys.foldl .attr (.name p.first)

end Path

/-! ## Tokens -/

namespace Token

variable {fuel n : Nat} {tail : List Char}

theorem skipSpace_cons {c : Char} {r : List Char} (h : isSpace c = false) :
    skipSpace (c :: r) = c :: r :=
  List.dropWhile_cons_of_neg (by simp [h])

/-- A text that begins with none of the characters of a block's end. -/
theorem closing?_eq_none {c : Char} {r : List Char} (h : c ∉ ['-', '+', '\x7d']) :
    closing? n (c :: r) = none := by
  simp only [List.mem_cons, List.not_mem_nil, or_false, not_or] at h
  unfold closing?
  split <;> simp_all

theorem scan_name {s : String} (hs : isName s = true)
    (htail : ∀ d ∈ tail.head?, isNameRest d = false) :
    scan (fuel + 1) (.output n) (s.toList ++ tail) = .ident s :: scan fuel (.output n) tail := by
  obtain ⟨c, r, rfl, hc, hr⟩ := exists_of_isName hs
  have hend : ∀ d ∈ ['-', '+', '\x7d'], isNameStart d = false :=
    List.all_iff_forall_prop.1 (by decide)
  have hskip : skipSpace (c :: (r ++ tail)) = c :: (r ++ tail) :=
    skipSpace_cons (isSpace_eq_false hc)
  have hclose : closing? n (c :: (r ++ tail)) = none :=
    closing?_eq_none fun hm => by simp [hend c hm] at hc
  rw [String.toList_ofList, List.cons_append,
    scan_token (by simp [hskip]) (by rw [hskip, hclose]), hskip, next_name hc hr htail]
  rfl

/-- A sign that neither ends a block nor begins a longer sign, nor opens or closes a bracket. -/
theorem scan_sign {c : Char} (hc : c ∈ ['.', '|']) : scan (fuel + 1) (.output n) (c :: tail) =
    .sign (String.ofList [c]) :: scan fuel (.output n) tail := by
  have hplain : ∀ d ∈ ['.', '|'], isSpace d = false ∧ d ∉ ['-', '+', '\x7d'] ∧
      (∀ p ∈ longSigns, p.1 ≠ d) ∧ d ∈ shortSigns :=
    List.all_iff_forall_prop.1 (by decide)
  obtain ⟨hspace, hclose, hlong, hshort⟩ := hplain c hc
  have hskip : skipSpace (c :: tail) = c :: tail := skipSpace_cons hspace
  have hnext : next (c :: tail) = (.sign (String.ofList [c]), tail) := by
    rw [next_single fun d _ hm => hlong _ hm rfl, next.single,
      if_pos (List.contains_iff_mem.2 hshort)]
  have hbrackets : ∀ d ∈ ['.', '|'], bracketChange (.sign (String.ofList [d])) n = n := by
    intro d hd
    simp only [List.mem_cons, List.not_mem_nil, or_false] at hd
    rcases hd with rfl | rfl <;> rfl
  rw [scan_token (by simp [hskip]) (by rw [hskip, closing?_eq_none hclose]), hskip, hnext]
  dsimp only
  rw [hbrackets c hc]

theorem dotted_append_head? {ks : List String} (htail : ∀ d ∈ tail.head?, isNameRest d = false) :
    ∀ d ∈ (Path.dotted ks ++ tail).head?, isNameRest d = false := by
  cases ks with
  | nil => exact htail
  | cons k ks =>
    intro d hd
    cases hd
    rfl

theorem scan_dotted {ks : List String} (hks : ∀ k ∈ ks, isName k = true)
    (htail : ∀ d ∈ tail.head?, isNameRest d = false) :
    scan (fuel + 2 * ks.length) (.output n) (Path.dotted ks ++ tail) =
      Path.dottedTokens ks ++ scan fuel (.output n) tail := by
  induction ks with
  | nil => rfl
  | cons k ks ih =>
    have hk : isName k = true := hks k List.mem_cons_self
    have hrest : ∀ k ∈ ks, isName k = true := fun k h => hks k (List.mem_cons_of_mem _ h)
    rw [show fuel + 2 * (k :: ks).length = fuel + 2 * ks.length + 1 + 1 by
        rw [List.length_cons]; omega,
      Path.dotted, List.cons_append, List.cons_append, scan_sign (by simp), List.append_assoc,
      scan_name hk (dotted_append_head? htail), ih hrest]
    rfl

/-- **A path inside a block** is split into its names and points. -/
theorem scan_path (p : Path) (htail : ∀ d ∈ tail.head?, isNameRest d = false) :
    scan (fuel + p.tokens.length) (.output n) (p.chars ++ tail) =
      p.tokens ++ scan fuel (.output n) tail := by
  rw [p.length_tokens, ← Nat.add_assoc, Path.tokens, Path.chars, List.append_assoc,
    scan_name p.isName_first (dotted_append_head? htail), scan_dotted p.isName_keys htail]
  rfl

end Token

/-! ## Expressions -/

namespace Parse

variable {fuel depth : Nat} {e : Expr} {rest : List Token}

/-- Tokens at which an expression ends: there are no more, the block ends, or a brace closes. -/
inductive Ends : List Token → Prop
  | nil : Ends []
  | outputEnd (r : List Token) : Ends (.outputEnd :: r)
  | brace (r : List Token) : Ends (.sign "\x7d" :: r)

/-- Tokens that nothing after an operand begins with. -/
def NoPostfix (ts : List Token) : Prop :=
  sign? "(" ts = none ∧ ∀ fuel depth e, postfixes (fuel + 1) depth e ts = .ok (e, ts)

theorem Ends.noPostfix (h : Ends rest) : NoPostfix rest := by
  cases h <;> exact ⟨rfl, fun _ _ _ => by simp [postfixes]⟩

theorem postfixes_dotted {ks : List String} (hrest : NoPostfix rest) (hfuel : ks.length < fuel) :
    postfixes fuel depth e (Path.dottedTokens ks ++ rest) = .ok (ks.foldl .attr e, rest) := by
  induction ks generalizing fuel e with
  | nil =>
    obtain _ | fuel := fuel
    · cases hfuel
    · exact hrest.2 fuel depth e
  | cons k ks ih =>
    obtain _ | fuel := fuel
    · cases hfuel
    have hcall : sign? "(" (Path.dottedTokens ks ++ rest) = none := by
      cases ks with
      | nil => exact hrest.1
      | cons => rfl
    rw [Path.dottedTokens, List.cons_append, List.cons_append, postfixes, hcall]
    exact ih (Nat.lt_of_succ_lt_succ hfuel)

theorem primary_name {x : String} (hx : x ∉ keywords) :
    primary (fuel + 1) depth (.ident x :: rest) = .ok (.name x, rest) := by
  simp only [keywords, List.mem_cons, List.not_mem_nil, or_false, not_or] at hx
  simp [primary, hx]

theorem filters_end (hrest : Ends rest) : filters (fuel + 1) depth e rest = .ok (e, rest) := by
  cases hrest <;> simp [filters]

theorem arithRest_end {level : Nat} (hrest : Ends rest) :
    arithRest (fuel + 1) depth level e rest = .ok (e, rest) := by
  have hbrace : arithmetic level "\x7d" = none := by
    unfold arithmetic
    split <;> rfl
  cases hrest <;> simp [arithRest, hbrace]

theorem compareRest_end (hrest : Ends rest) :
    compareRest (fuel + 1) depth e rest = .ok (e, rest) := by
  cases hrest <;> simp [compareRest, comparison?]

theorem andRest_end (hrest : Ends rest) : andRest (fuel + 1) depth e rest = .ok (e, rest) := by
  cases hrest <;> simp [andRest, word?]

theorem orRest_end (hrest : Ends rest) : orRest (fuel + 1) depth e rest = .ok (e, rest) := by
  cases hrest <;> simp [orRest, word?]

theorem conditional_end (hrest : Ends rest) :
    conditional (fuel + 1) depth e rest = .ok (e, rest) := by
  cases hrest <;> simp [conditional, word?]

/-- An operand that begins with a path goes on with the filters after it. -/
theorem signed_path_append (p : Path) (hrest : NoPostfix rest) :
    signed (fuel + p.keys.length + 3) depth (p.tokens ++ rest) =
      filters (fuel + p.keys.length + 2) depth p.expr rest := by
  have hminus : minus (fuel + p.keys.length + 2) depth (p.tokens ++ rest) =
      .ok (.name p.first, Path.dottedTokens p.keys ++ rest) := by
    rw [Path.tokens, List.cons_append, minus]
    exact primary_name p.first_not_keyword
  have hpost : postfixes (fuel + p.keys.length + 2) depth (.name p.first)
      (Path.dottedTokens p.keys ++ rest) = .ok (p.expr, rest) :=
    postfixes_dotted hrest (by omega)
  rw [signed, hminus]
  show (postfixes _ depth (.name p.first) _ >>= fun x => filters _ depth x.1 x.2) = _
  rw [hpost]
  rfl

theorem signed_path (p : Path) (hrest : Ends rest) :
    signed (fuel + p.keys.length + 3) depth (p.tokens ++ rest) = .ok (p.expr, rest) := by
  rw [signed_path_append p hrest.noPostfix]
  exact filters_end hrest

section
variable {ts : List Token} (hsigned : signed fuel depth ts = .ok (e, rest)) (hrest : Ends rest)
include hsigned hrest

/-- The level of signs is the innermost of five. -/
theorem arithLevel_of_signed {j : Nat} (hj : j ≤ 4) :
    arithLevel (fuel + 1 + j) depth (4 - j) ts = .ok (e, rest) := by
  induction j with
  | zero => rw [arithLevel, if_pos (Nat.le_refl 4), hsigned]
  | succ j ih =>
    rw [← Nat.add_assoc, arithLevel, if_neg (by omega), show 4 - (j + 1) + 1 = 4 - j by omega,
      ih (by omega), show fuel + 1 + j = fuel + j + 1 by omega]
    exact arithRest_end hrest

theorem notLevel_of_signed (hnot : word? "not" ts = none) :
    notLevel (fuel + 6) depth ts = .ok (e, rest) := by
  rw [notLevel, hnot]
  dsimp only
  rw [arithLevel_of_signed hsigned hrest (Nat.le_refl 4)]
  exact compareRest_end hrest

/-- An operand before the end of a block is the whole expression. -/
theorem expr_of_signed (hnot : word? "not" ts = none) :
    expr (fuel + 9) (depth + 1) ts = .ok (e, rest) := by
  have hand : andLevel (fuel + 7) depth ts = .ok (e, rest) := by
    rw [andLevel, notLevel_of_signed hsigned hrest hnot]
    exact andRest_end hrest
  have hor : orLevel (fuel + 8) depth ts = .ok (e, rest) := by
    rw [orLevel, hand]
    exact orRest_end hrest
  rw [expr, hor]
  exact conditional_end hrest

end

theorem word?_not_path (p : Path) : word? "not" (p.tokens ++ rest) = none := by
  have := p.first_not_keyword
  simp [keywords] at this
  simp [Path.tokens, word?, this]

/-- **A path** before the end of a block parses to its expression. -/
theorem expr_path (p : Path) (hrest : Ends rest) :
    expr (fuel + p.keys.length + 12) (depth + 1) (p.tokens ++ rest) = .ok (p.expr, rest) :=
  expr_of_signed (signed_path p hrest) hrest (word?_not_path p)

theorem expr_fuelFor (p : Path) (hrest : Ends rest) :
    expr (fuelFor (p.tokens ++ rest)) maxNesting (p.tokens ++ rest) = .ok (p.expr, rest) := by
  obtain ⟨fuel, hfuel⟩ : ∃ f, fuelFor (p.tokens ++ rest) = f + p.keys.length + 12 :=
    ⟨fuelFor (p.tokens ++ rest) - (p.keys.length + 12), by
      rw [fuelFor, List.length_append, p.length_tokens]
      omega⟩
  rw [hfuel]
  exact expr_path p hrest

end Parse

/-! ## From text -/

theorem toNat_of_isNameRest {c : Char} (h : Token.isNameRest c = true) :
    48 ≤ c.toNat ∧ c.toNat ≤ 122 := by
  simp only [Token.isNameRest, Char.isAlphanum, Bool.or_eq_true, beq_iff_eq] at h
  rcases h with (ha | hd) | rfl
  · have := Token.toNat_of_isAlpha ha
    omega
  · have := Token.toNat_of_isDigit hd
    omega
  · decide

theorem toNat_of_isName {s : String} (h : isName s = true) {c : Char} (hc : c ∈ s.toList) :
    48 ≤ c.toNat ∧ c.toNat ≤ 122 := by
  obtain ⟨d, r, rfl, hd, hr⟩ := exists_of_isName h
  rw [String.toList_ofList] at hc
  rcases List.mem_cons.1 hc with rfl | hc
  · exact toNat_of_isNameRest (Token.isNameRest_of_isNameStart hd)
  · exact toNat_of_isNameRest (hr c hc)

namespace Path

/-- The characters of a path lie between the point and `z`. -/
theorem toNat_chars (p : Path) {c : Char} (hc : c ∈ p.chars) : 46 ≤ c.toNat ∧ c.toNat ≤ 122 := by
  have hdotted : ∀ ks : List String, (∀ k ∈ ks, isName k = true) → c ∈ dotted ks →
      46 ≤ c.toNat ∧ c.toNat ≤ 122 := fun ks hks hc => by
    induction ks with
    | nil => cases hc
    | cons k ks ih =>
      rcases List.mem_append.1 hc with hc | hc
      · rcases List.mem_cons.1 hc with rfl | hc
        · decide
        · have := toNat_of_isName (hks k List.mem_cons_self) hc
          omega
      · exact ih (fun k hk => hks k (List.mem_cons_of_mem _ hk)) hc
  rcases List.mem_append.1 hc with hc | hc
  · have := toNat_of_isName p.isName_first hc
    omega
  · exact hdotted p.keys p.isName_keys hc

theorem not_mem_chars (p : Path) {c : Char} (hc : 122 < c.toNat) : c ∉ p.chars := fun hm => by
  have := p.toNat_chars hm
  omega

theorem chars_ne_nil (p : Path) : p.chars ≠ [] := by
  exact List.append_ne_nil_of_left_ne_nil (toList_ne_nil_of_isName p.isName_first) _

theorem length_tokens_le (p : Path) : p.tokens.length ≤ p.chars.length := by
  have hdotted : ∀ ks : List String, (∀ k ∈ ks, isName k = true) →
      (dottedTokens ks).length ≤ (dotted ks).length := fun ks hks => by
    induction ks with
    | nil => exact Nat.le_refl _
    | cons k ks ih =>
      have hk := List.length_pos_iff.2 (toList_ne_nil_of_isName (hks k List.mem_cons_self))
      have := ih fun k hk => hks k (List.mem_cons_of_mem _ hk)
      simp only [dottedTokens, dotted, List.length_cons, List.length_append]
      omega
  have hfirst := List.length_pos_iff.2 (toList_ne_nil_of_isName p.isName_first)
  have := hdotted p.keys p.isName_keys
  simp only [tokens, chars, List.length_cons, List.length_append]
  omega

/-- A path as it is written. -/
def text (p : Path) : String := String.ofList p.chars

theorem ofExpression_text (p : Path) : Token.ofExpression p.text = p.tokens := by
  have hend : Token.dropLineEnd p.chars = p.chars := Token.dropLineEnd_eq_self fun c hc => by
    have := p.toNat_chars (List.mem_of_getLast? hc)
    constructor <;> rintro rfl <;> revert this <;> decide
  obtain ⟨fuel, hfuel⟩ : ∃ fuel, p.chars.length + 1 = fuel + p.tokens.length :=
    Nat.exists_eq_add_of_le' (p.length_tokens_le.trans (Nat.le_succ _))
  have hscan : Token.scan (fuel + p.tokens.length) (.output 0) (p.chars ++ []) =
      p.tokens ++ Token.scan fuel (.output 0) [] := Token.scan_path p nofun
  rw [Token.ofExpression, text, String.toList_ofList, hend, hfuel, ← List.append_nil p.chars, hscan]
  cases fuel with
  | zero => rw [Token.scan, List.append_nil]
  | succ fuel => rw [Token.scan_blank rfl, List.append_nil]

theorem parse_text (p : Path) : Expr.parse p.text = .ok p.expr := by
  have hexpr := Parse.expr_fuelFor p .nil
  rw [List.append_nil] at hexpr
  rw [Expr.parse, ofExpression_text, hexpr]

end Path

/-! ## Values -/

/-- What going down objects along keys finds. -/
def walk? : List String → Json → Option Json
  | [], v => some v
  | k :: ks, v => (v.get? k).bind (walk? ks)

/-- There is no such value: it is undefined, or what it would be part of is. -/
def Missing (r : Except Fault Value) : Prop :=
  r = .ok (.undefined false) ∨ r = .error .undefinedValue

theorem attribute?_ofJson (v : Json) (k : String) :
    (Value.ofJson v).attribute? k = (v.get? k).map Value.ofJson := by
  cases v with
  | obj fs => rw [Value.ofJson, Value.attribute?, Value.lookupEntry_ofJsonFields, Json.get?]
  | _ => rfl

namespace Path

variable {env : Env} {e : Expr} {ks : List String}

theorem Missing.attr {k : String} (h : Missing (e.eval env)) :
    Missing ((Expr.attr e k).eval env) := by
  rcases h with h | h
  · exact .inr (by rw [Expr.eval, h]; rfl)
  · exact .inr (by rw [Expr.eval, h])

theorem Missing.foldl (h : Missing (e.eval env)) : Missing ((ks.foldl .attr e).eval env) := by
  induction ks generalizing e with
  | nil => exact h
  | cons k ks ih => exact ih (Missing.attr h)

theorem eval_foldl_attr (ks : List String) {v : Json} (h : e.eval env = .ok (Value.ofJson v)) :
    match walk? ks v with
    | some w => (ks.foldl .attr e).eval env = .ok (Value.ofJson w)
    | none => Missing ((ks.foldl .attr e).eval env) := by
  induction ks generalizing e v with
  | nil => exact h
  | cons k ks ih =>
    have hattr : (Expr.attr e k).eval env =
        Value.orUndefined (Value.ofJson v) ((v.get? k).map Value.ofJson) := by
      rw [Expr.eval, h, ← attribute?_ofJson]
    cases hk : v.get? k with
    | some w =>
      rw [walk?, hk]
      rw [hk] at hattr
      exact ih hattr
    | none =>
      rw [walk?, hk]
      have hdefined : (Value.ofJson v).isUndefined = false := by cases v <;> rfl
      have hundefined : (Expr.attr e k).eval env = .ok (.undefined false) := by
        rw [hattr, hk, Option.map_none, Value.orUndefined, hdefined]
        rfl
      show Missing ((ks.foldl Expr.attr (Expr.attr e k)).eval env)
      exact Missing.foldl (.inl hundefined)

/-- What a path finds in an object. -/
def find? (p : Path) (fs : Fields) : Option Json := (Table.get? p.first fs).bind (walk? p.keys)

/-- **The value of a path** over a context is what it finds there. Where it finds nothing there is
none, save that the name of a function that every template knows stands for this function. -/
theorem eval_expr (p : Path) (fs : Fields) :
    match p.find? fs with
    | some v => p.expr.eval (Env.ofContext (.obj fs)) = .ok (Value.ofJson v)
    | none =>
      if p.keys = [] ∧ p.first ∈ Env.functions then
        p.expr.eval (Env.ofContext (.obj fs)) = .ok (.function p.first)
      else Missing (p.expr.eval (Env.ofContext (.obj fs))) := by
  have hname : (Expr.name p.first).eval (Env.ofContext (.obj fs)) =
      .ok ((((Table.get? p.first fs).map Value.ofJson).or (Env.function? p.first)).getD
        (.undefined false)) := by
    rw [Expr.eval, Env.lookup?, Env.ofContext, Env.inFrames?, List.find?_nil]
    rw [attribute?_ofJson]
    rfl
  rw [find?, expr]
  cases hfirst : Table.get? p.first fs with
  | some v =>
    rw [hfirst] at hname
    rw [Option.bind_some]
    have hvalue := eval_foldl_attr p.keys hname
    cases hwalk : walk? p.keys v with
    | some w => rwa [hwalk] at hvalue
    | none =>
      rw [hwalk] at hvalue
      have hkeys : p.keys ≠ [] := fun h => by simp [h, walk?] at hwalk
      rwa [if_neg fun h => hkeys h.1]
  | none =>
    rw [hfirst, Option.map_none, Option.none_or, Env.function?] at hname
    rw [Option.bind_none]
    by_cases hf : p.first ∈ Env.functions
    · rw [if_pos (List.contains_iff_mem.2 hf)] at hname
      cases hkeys : p.keys with
      | nil => rwa [if_pos ⟨rfl, hf⟩]
      | cons k ks =>
        have hattr : (Expr.attr (.name p.first) k).eval (Env.ofContext (.obj fs)) =
            .ok (.undefined false) := by
          rw [Expr.eval, hname]
          rfl
        rw [if_neg fun h => List.cons_ne_nil _ _ h.1]
        show Missing ((ks.foldl Expr.attr (Expr.attr (.name p.first) k)).eval _)
        exact Missing.foldl (.inl hattr)
    · rw [if_neg fun h => hf (List.contains_iff_mem.1 h)] at hname
      rw [if_neg fun h => hf h.2]
      exact Missing.foldl (.inl hname)

end Path

end Runbook.Template
