import Runbook.Proofs.Json.Decode
import Runbook.Template.Parser

/-!
# What a parser reads

A parser that succeeds has read the tokens at the start of its list, and what it made of them
depends on the rest only through the next token. It takes no fault, and every bracket that it opens
it closes. `Parse.Reads` says so of one parser and one list, with a bound on the steps that reading
takes, and is kept by the ways in which parsers are put together. `Parse.Sound` says it of every
parser of expressions at once, since they call each other, and `Parse.reads_expr` is what it comes
to.
-/

namespace Runbook.Template

namespace Token

/-- The number of open brackets after some tokens. -/
def openAfter (n : Nat) (ts : List Token) : Nat := ts.foldl (fun n t => bracketChange t n) n

theorem openAfter_append (n : Nat) (ts us : List Token) :
    openAfter n (ts ++ us) = openAfter (openAfter n ts) us := List.foldl_append

end Token

namespace Parse

variable {α β : Type} {ts r r' rest used : List Token} {a : α} {c : β}

theorem unexpected_ne_ok {x : α} : unexpected ts ≠ .ok x := by
  unfold unexpected
  split <;> nofun

/-! ## Looking ahead -/

/-- The next token, none where the tokens or their block end. -/
def ahead : List Token → Option Token
  | [] => none
  | .outputEnd :: _ => none
  | t :: _ => some t

theorem ahead_append (h : ahead r' = ahead r) : ahead (used ++ r') = ahead (used ++ r) := by
  cases used with
  | nil => exact h
  | cons t used => cases t <;> rfl

theorem word?_eq_some {w : String} (h : word? w ts = some r) : ts = .ident w :: r := by
  unfold word? at h
  split at h
  · split at h
    · rename_i hw
      cases h
      rw [beq_iff_eq.1 hw]
    · cases h
  · cases h

theorem sign?_eq_some {s : String} (h : sign? s ts = some r) : ts = .sign s :: r := by
  unfold sign? at h
  split at h
  · split at h
    · rename_i hs
      cases h
      rw [beq_iff_eq.1 hs]
    · cases h
  · cases h

theorem ahead_eq_none (h : ahead ts = none) : ts = [] ∨ ∃ x, ts = .outputEnd :: x := by
  unfold ahead at h
  split at h
  · exact .inl rfl
  · exact .inr ⟨_, rfl⟩
  · cases h

theorem ahead_eq_some {t : Token} (h : ahead ts = some t) : ∃ x, ts = t :: x := by
  unfold ahead at h
  split at h
  · cases h
  · cases h
  · cases h
    exact ⟨_, rfl⟩

/-- Two lists with the same token ahead begin with it, or both are at an end. -/
theorem ahead_cases (h : ahead r' = ahead r) :
    (∃ t x x', r = t :: x ∧ r' = t :: x') ∨
      ((r = [] ∨ ∃ x, r = .outputEnd :: x) ∧ (r' = [] ∨ ∃ x, r' = .outputEnd :: x)) := by
  cases hr : ahead r with
  | none => exact .inr ⟨ahead_eq_none hr, ahead_eq_none (h.trans hr)⟩
  | some t =>
    obtain ⟨x, rfl⟩ := ahead_eq_some hr
    obtain ⟨x', rfl⟩ := ahead_eq_some (h.trans hr)
    exact .inl ⟨t, x, x', rfl, rfl⟩

theorem word?_eq_none {w : String} (h : ahead r' = ahead r) (hr : word? w r = none) :
    word? w r' = none := by
  obtain ⟨t, x, x', rfl, rfl⟩ | ⟨-, rfl | ⟨x, rfl⟩⟩ := ahead_cases h
  · cases t <;> simp_all [word?]
  · rfl
  · rfl

theorem sign?_eq_none {s : String} (h : ahead r' = ahead r) (hr : sign? s r = none) :
    sign? s r' = none := by
  obtain ⟨t, x, x', rfl, rfl⟩ | ⟨-, rfl | ⟨x, rfl⟩⟩ := ahead_cases h
  · cases t <;> simp_all [sign?]
  · rfl
  · rfl

theorem sign?_isSome_eq {s : String} (h : ahead r' = ahead r) :
    (sign? s r').isSome = (sign? s r).isSome := by
  obtain ⟨t, x, x', rfl, rfl⟩ | ⟨rfl | ⟨x, rfl⟩, rfl | ⟨x', rfl⟩⟩ := ahead_cases h
  · cases t <;> simp only [sign?]
    split <;> rfl
  all_goals rfl

theorem comparison?_eq_none (h : ahead r' = ahead r) (hr : comparison? r = none) :
    comparison? r' = none := by
  obtain ⟨t, x, x', rfl, rfl⟩ | ⟨-, rfl | ⟨x, rfl⟩⟩ := ahead_cases h
  · -- whatever follows a token that begins a comparison, the answer is not none
    rw [comparison?.eq_def] at hr ⊢
    split at hr <;> cases hr
    split <;> simp_all
  · rfl
  · rfl

/-! ## What is read -/

/-- Tokens that take the number of open brackets from one count to another, none of them a
fault. -/
structure Takes (before after : Nat) (used : List Token) : Prop where
  brackets : ∀ n, Token.openAfter (n + before) used = n + after
  no_fault : ∀ e, .fault e ∉ used

namespace Takes

variable {i j k : Nat} {us vs : List Token}

theorem nil : Takes i i [] := ⟨fun _ => rfl, fun _ => List.not_mem_nil⟩

theorem append (hu : Takes i j us) (hv : Takes j k vs) : Takes i k (us ++ vs) := by
  refine ⟨fun n => ?_, fun e he => ?_⟩
  · rw [Token.openAfter_append, hu.brackets, hv.brackets]
  · exact (List.mem_append.1 he).elim (hu.no_fault e) (hv.no_fault e)

/-- The same inside of brackets. -/
theorem inside (hu : Takes 0 0 us) : Takes k k us := ⟨fun n => hu.brackets (n + k), hu.no_fault⟩

theorem ident (x : String) : Takes i i [.ident x] := ⟨fun _ => rfl, by simp⟩

/-- A sign that is no bracket. -/
theorem sign {s : String} (hs : ∀ n, Token.bracketChange (.sign s) n = n) : Takes i i [.sign s] :=
  ⟨fun _ => hs _, by simp⟩

theorem opening {s : String} (hs : s ∈ ["(", "[", "\x7b"]) : Takes 0 1 [.sign s] := by
  simp only [List.mem_cons, List.not_mem_nil, or_false] at hs
  rcases hs with rfl | rfl | rfl <;> exact ⟨fun _ => rfl, by simp⟩

theorem closing {s : String} (hs : s ∈ [")", "]", "\x7d"]) : Takes 1 0 [.sign s] := by
  simp only [List.mem_cons, List.not_mem_nil, or_false] at hs
  rcases hs with rfl | rfl | rfl <;> exact ⟨fun _ => rfl, by simp⟩

end Takes

/-- What a comparison is written as, and what it leaves. -/
theorem comparison?_eq_some {x : BinOp × Bool × List Token} (h : comparison? ts = some (.ok x)) :
    ∃ u, ts = u ++ x.2.2 ∧ Takes 0 0 u ∧ 0 < u.length ∧
      ∀ r', comparison? (u ++ r') = some (.ok (x.1, x.2.1, r')) := by
  have hone {s : String} {r : List Token} {y : BinOp}
      (hs : ∀ n, Token.bracketChange (.sign s) n = n)
      (hread : ∀ r', comparison? (.sign s :: r') = some (.ok (y, false, r'))) :
      ∃ u, .sign s :: r = u ++ r ∧ Takes 0 0 u ∧ 0 < u.length ∧
        ∀ r', comparison? (u ++ r') = some (.ok (y, false, r')) :=
    ⟨[.sign s], rfl, .sign hs, Nat.one_pos, hread⟩
  rw [comparison?.eq_def] at h
  split at h
  iterate 6
    cases h
    exact hone (fun _ => rfl) fun _ => rfl
  · cases h
    exact ⟨[.ident "in"], rfl, .ident "in", Nat.one_pos, fun _ => rfl⟩
  · cases h
    exact ⟨[.ident "not", .ident "in"], rfl, (Takes.ident "not").append (.ident "in"), Nat.two_pos,
      fun _ => rfl⟩
  · exact absurd (Option.some.inj h) unexpected_ne_ok
  · cases h

/-- A parser, given a bound on its steps. -/
abbrev Parser (α : Type) := Nat → List Token → Except SyntaxFault (α × List Token)

/-- The parser makes `a` of the tokens before `rest`: they open and close brackets as said, and it
makes the same of them before any other rest with the same token ahead, within `base` steps and
sixteen for each token. -/
def Reads (before after base : Nat) (p : Parser α) (ts : List Token) (a : α) (rest : List Token) :
    Prop :=
  ∃ used, ts = used ++ rest ∧ Takes before after used ∧
    ∀ m rest', ahead rest' = ahead rest → base + 16 * used.length ≤ m →
      p m (used ++ rest') = .ok (a, rest')

namespace Reads

variable {i j k base b : Nat} {p body : Parser α} {mid u : List Token}

theorem mono (h : Reads i j b p ts a rest) (hb : b ≤ base) : Reads i j base p ts a rest := by
  obtain ⟨used, hts, htakes, hp⟩ := h
  exact ⟨used, hts, htakes, fun m rest' hahead hm => hp m rest' hahead (by omega)⟩

theorem inside (h : Reads 0 0 base p ts a rest) : Reads k k base p ts a rest := by
  obtain ⟨used, hts, htakes, hp⟩ := h
  exact ⟨used, hts, htakes.inside, hp⟩

/-- One parser after the other. -/
theorem bind {f : Nat → α × List Token → Except SyntaxFault (β × List Token)}
    (hp : Reads i j base p ts a mid) (hq : Reads j k base (fun m ts => f m (a, ts)) mid c rest) :
    Reads i k base (fun m ts => p m ts >>= f m) ts c rest := by
  obtain ⟨us, rfl, hus, hp⟩ := hp
  obtain ⟨vs, rfl, hvs, hq⟩ := hq
  refine ⟨us ++ vs, (List.append_assoc _ _ _).symm, hus.append hvs, fun m rest' hahead hm => ?_⟩
  rw [List.length_append] at hm
  dsimp only
  rw [List.append_assoc, hp m _ (ahead_append hahead) (by omega)]
  exact hq m rest' hahead (by omega)

/-- Some tokens, and then what is read after them. -/
theorem drop (h : Reads j k (base + 16 * u.length) (fun m ts => p m (u ++ ts)) r a rest)
    (hu : Takes i j u) : Reads i k base p (u ++ r) a rest := by
  obtain ⟨used, rfl, hused, hp⟩ := h
  refine ⟨u ++ used, (List.append_assoc _ _ _).symm, hu.append hused,
    fun m rest' hahead hm => ?_⟩
  rw [List.length_append] at hm
  rw [List.append_assoc]
  exact hp m rest' hahead (by omega)

/-- One token, and then what is read after it. -/
theorem cons {t : Token} (h : Reads j k (base + 16) (fun m ts => p m (t :: ts)) r a rest)
    (ht : Takes i j [t]) : Reads i k base p (t :: r) a rest :=
  drop h ht

/-- A parser that does the same where the same token is ahead. -/
theorem congr (h : Reads i j base body ts a rest)
    (hp : ∀ m ts', ahead ts' = ahead ts → p m ts' = body m ts') : Reads i j base p ts a rest := by
  obtain ⟨used, rfl, hused, hbody⟩ := h
  refine ⟨used, rfl, hused, fun m rest' hahead hm => ?_⟩
  rw [hp m _ (ahead_append hahead)]
  exact hbody m rest' hahead hm

/-- A parser that looks for something that does not come. -/
theorem absent {look : List Token → Option (List Token)} {f : Parser α}
    (hlook : ∀ ts', ahead ts' = ahead ts → look ts' = none) (h : Reads i j base body ts a rest) :
    Reads i j base (fun m ts => match look ts with
      | some r => f m r
      | none => body m ts) ts a rest :=
  h.congr fun m ts' ha => by rw [hlook ts' ha]

theorem absent' {look : List Token → Option (List Token)} {f : Parser α}
    (hlook : ∀ ts', ahead ts' = ahead ts → look ts' = none) (h : Reads i j base body ts a rest) :
    Reads i j base (fun m ts => match look ts with
      | none => body m ts
      | some r => f m r) ts a rest :=
  h.congr fun m ts' ha => by rw [hlook ts' ha]

theorem ite {c : List Token → Bool} {f : Parser α} (hc : ∀ ts', ahead ts' = ahead ts → c ts' = true)
    (h : Reads i j base body ts a rest) :
    Reads i j base (fun m ts => if c ts = true then body m ts else f m ts) ts a rest :=
  h.congr fun _ ts' ha => if_pos (hc ts' ha)

/-- One step. -/
theorem succ (h : Reads i j base (fun m => p (m + 1)) ts a rest) :
    Reads i j (base + 1) p ts a rest := by
  obtain ⟨used, hts, htakes, hp⟩ := h
  refine ⟨used, hts, htakes, fun m rest' hahead hm => ?_⟩
  obtain ⟨m, rfl⟩ : ∃ l, m = l + 1 := ⟨m - 1, by omega⟩
  exact hp m rest' hahead (by omega)

/-- Nothing is read. -/
theorem pure (a : α) (ts : List Token) : Reads i i base (fun _ ts => .ok (a, ts)) ts a ts :=
  ⟨[], rfl, .nil, fun _ _ _ _ => rfl⟩

end Reads

theorem ok_bind {ε : Type} (a : α) (f : α → Except ε β) : (Except.ok a >>= f) = f a := rfl

theorem word?_cons (w : String) : word? w (.ident w :: ts) = some ts := by simp [word?]

theorem sign?_cons (s : String) : sign? s (.sign s :: ts) = some ts := by simp [sign?]

theorem sign_cons (s : String) : sign s (.sign s :: ts) = .ok ts := by simp [sign, sign?]

theorem sign_eq_ok {s : String} (h : sign s ts = .ok r) : ts = .sign s :: r := by
  unfold sign at h
  split at h
  · rename_i hsign
    cases h
    exact sign?_eq_some hsign
  · exact absurd h unexpected_ne_ok

theorem ident_eq_ok {x : String} (h : ident ts = .ok (x, r)) : ts = .ident x :: r := by
  unfold ident at h
  split at h
  · cases h
    rfl
  · exact absurd h unexpected_ne_ok

/-! ## Every parser of expressions -/

/-- What every parser reads, given a bound on its steps. -/
structure Sound (fuel : Nat) : Prop where
  expr : ∀ {depth ts a rest}, Parse.expr fuel depth ts = .ok (a, rest) →
    Reads 0 0 12 (fun m ts => Parse.expr m depth ts) ts a rest
  conditional : ∀ {depth e ts a rest}, Parse.conditional fuel depth e ts = .ok (a, rest) →
    Reads 0 0 1 (fun m ts => Parse.conditional m depth e ts) ts a rest
  orLevel : ∀ {depth ts a rest}, Parse.orLevel fuel depth ts = .ok (a, rest) →
    Reads 0 0 11 (fun m ts => Parse.orLevel m depth ts) ts a rest
  orRest : ∀ {depth e ts a rest}, Parse.orRest fuel depth e ts = .ok (a, rest) →
    Reads 0 0 1 (fun m ts => Parse.orRest m depth e ts) ts a rest
  andLevel : ∀ {depth ts a rest}, Parse.andLevel fuel depth ts = .ok (a, rest) →
    Reads 0 0 10 (fun m ts => Parse.andLevel m depth ts) ts a rest
  andRest : ∀ {depth e ts a rest}, Parse.andRest fuel depth e ts = .ok (a, rest) →
    Reads 0 0 1 (fun m ts => Parse.andRest m depth e ts) ts a rest
  notLevel : ∀ {depth ts a rest}, Parse.notLevel fuel depth ts = .ok (a, rest) →
    Reads 0 0 9 (fun m ts => Parse.notLevel m depth ts) ts a rest
  compareRest : ∀ {depth e ts a rest}, Parse.compareRest fuel depth e ts = .ok (a, rest) →
    Reads 0 0 1 (fun m ts => Parse.compareRest m depth e ts) ts a rest
  arithLevel : ∀ {depth level ts a rest}, level ≤ 4 →
    Parse.arithLevel fuel depth level ts = .ok (a, rest) →
      Reads 0 0 (8 - level) (fun m ts => Parse.arithLevel m depth level ts) ts a rest
  arithRest : ∀ {depth level e ts a rest}, level < 4 →
    Parse.arithRest fuel depth level e ts = .ok (a, rest) →
      Reads 0 0 1 (fun m ts => Parse.arithRest m depth level e ts) ts a rest
  signed : ∀ {depth ts a rest}, Parse.signed fuel depth ts = .ok (a, rest) →
    Reads 0 0 3 (fun m ts => Parse.signed m depth ts) ts a rest
  minus : ∀ {depth ts a rest}, Parse.minus fuel depth ts = .ok (a, rest) →
    Reads 0 0 2 (fun m ts => Parse.minus m depth ts) ts a rest
  primary : ∀ {depth ts a rest}, Parse.primary fuel depth ts = .ok (a, rest) →
    Reads 0 0 1 (fun m ts => Parse.primary m depth ts) ts a rest
  items : ∀ {depth close acc ts a rest}, close ∈ [")", "]"] →
    Parse.items fuel depth close acc ts = .ok (a, rest) →
      Reads 1 0 13 (fun m ts => Parse.items m depth close acc ts) ts a rest
  entries : ∀ {depth acc ts a rest}, Parse.entries fuel depth acc ts = .ok (a, rest) →
    Reads 1 0 13 (fun m ts => Parse.entries m depth acc ts) ts a rest
  postfixes : ∀ {depth e ts a rest}, Parse.postfixes fuel depth e ts = .ok (a, rest) →
    Reads 0 0 1 (fun m ts => Parse.postfixes m depth e ts) ts a rest
  bound : ∀ {depth stops ts a rest}, Parse.bound fuel depth stops ts = .ok (a, rest) →
    Reads 0 0 13 (fun m ts => Parse.bound m depth stops ts) ts a rest
  filters : ∀ {depth e ts a rest}, Parse.filters fuel depth e ts = .ok (a, rest) →
    Reads 0 0 1 (fun m ts => Parse.filters m depth e ts) ts a rest

theorem Sound.zero : Sound 0 := by
  constructor <;> intros <;> rename_i h <;>
    simp only [Parse.expr, Parse.conditional, Parse.orLevel, Parse.orRest, Parse.andLevel,
      Parse.andRest, Parse.notLevel, Parse.compareRest, Parse.arithLevel, Parse.arithRest,
      Parse.signed, Parse.minus, Parse.primary, Parse.items, Parse.entries, Parse.postfixes,
      Parse.bound, Parse.filters, unexpected_ne_ok] at h

section Stops

variable {m depth level : Nat} {e : Expr}

theorem arithRest_stop (h : ∀ s, ahead ts = some (.sign s) → arithmetic level s = none) :
    arithRest (m + 1) depth level e ts = .ok (e, ts) := by
  rw [arithRest.eq_def]
  dsimp only
  split
  · rw [h _ rfl]
  · rfl

theorem bracketChange_arithmetic {s : String} {op : BinOp} (h : arithmetic level s = some op)
    (n : Nat) : Token.bracketChange (.sign s) n = n := by
  have hbracket : ∀ b ∈ ["(", "[", "\x7b", ")", "]", "\x7d"], arithmetic level b = none := by
    intro b hb
    simp only [List.mem_cons, List.not_mem_nil, or_false] at hb
    unfold arithmetic
    rcases hb with rfl | rfl | rfl | rfl | rfl | rfl <;> split <;> rfl
  have hs : s ∉ ["(", "[", "\x7b", ")", "]", "\x7d"] := fun hm => by simp [hbracket s hm] at h
  simp only [List.mem_cons, List.not_mem_nil, or_false, not_or] at hs
  simp [Token.bracketChange, hs]

/-- Texts side by side are read as one. -/
theorem reads_joinTexts (s : String) (ts : List Token) :
    Reads 0 0 0 (fun _ ts => .ok (Expr.str (joinTexts s ts).1, (joinTexts s ts).2)) ts
      (Expr.str (joinTexts s ts).1) (joinTexts s ts).2 := by
  induction ts generalizing s with
  | nil =>
    refine (Reads.pure (Expr.str s) []).congr fun m ts' ha => ?_
    rcases ahead_eq_none ha with rfl | ⟨x, rfl⟩ <;> rfl
  | cons t ts ih =>
    by_cases ht : ∃ u, t = .str u
    · obtain ⟨u, rfl⟩ := ht
      refine .cons ?_ ⟨fun _ => rfl, by simp⟩
      exact (ih (s ++ u)).mono (Nat.zero_le _)
    · have hstop (x : List Token) : joinTexts s (t :: x) = (s, t :: x) := by
        rw [joinTexts]
        rintro u y ⟨⟩
        exact ht ⟨u, rfl⟩
      rw [hstop]
      refine (Reads.pure (Expr.str s) (t :: ts)).congr fun m ts' ha => ?_
      obtain ⟨_, x, x', ⟨⟩, rfl⟩ | ⟨-, rfl | ⟨x, rfl⟩⟩ := ahead_cases ha
      · rw [hstop]
      · rfl
      · rfl

theorem postfixes_stop (h : ∀ s ∈ [".", "[", "("], ahead ts ≠ some (.sign s)) :
    postfixes (m + 1) depth e ts = .ok (e, ts) := by
  rw [postfixes.eq_def]
  dsimp only
  split <;> first | rfl | exact absurd rfl (h _ (by decide))

theorem filters_stop (hpipe : ahead ts ≠ some (.sign "|")) (his : ahead ts ≠ some (.ident "is")) :
    filters (m + 1) depth e ts = .ok (e, ts) := by
  rw [filters.eq_def]
  dsimp only
  split
  · exact absurd rfl hpipe
  · exact absurd rfl his
  · rfl

/-- The name and the arguments of a test, after its `is` or `is not`. -/
def testRest (m depth : Nat) (e : Expr) (negated : Bool) (ts : List Token) :
    Except SyntaxFault (Expr × List Token) := do
  let (x, r) ← ident ts
  let wrap (args : List Expr) : Expr := if negated then .not (.test e x args) else .test e x args
  match sign? "(" r with
  | some r => do
    let (args, r) ← items m depth ")" [] r
    filters m depth (wrap args) r
  | none =>
    if startsArgument r then do
      let (a, r) ← minus m depth r
      let (a, r) ← postfixes m depth a r
      filters m depth (wrap [a]) r
    else filters m depth (wrap []) r

theorem filters_is (ts : List Token) :
    filters (m + 1) depth e (.ident "is" :: ts) =
      match word? "not" ts with
      | some ts => testRest m depth e true ts
      | none => testRest m depth e false ts := by
  rw [filters]
  cases word? "not" ts <;> rfl

theorem startsArgument_eq (h : ahead r' = ahead r) : startsArgument r' = startsArgument r := by
  obtain ⟨t, x, x', rfl, rfl⟩ | ⟨rfl | ⟨x, rfl⟩, rfl | ⟨x', rfl⟩⟩ := ahead_cases h
  · cases t <;> rfl
  all_goals rfl

end Stops

namespace Sound

variable {fuel depth : Nat} {e : Expr}

section

variable (ih : Sound fuel)
include ih

theorem reads_expr {x : Expr} (h : Parse.expr (fuel + 1) depth ts = .ok (x, rest)) :
    Reads 0 0 12 (fun m ts => Parse.expr m depth ts) ts x rest := by
  cases depth with
  | zero =>
    rw [Parse.expr] at h
    exact absurd h unexpected_ne_ok
  | succ depth =>
    rw [Parse.expr] at h
    obtain ⟨⟨e, mid⟩, h₁, h₂⟩ := bind_eq_ok.1 h
    refine .succ ?_
    simp only [Parse.expr]
    exact (ih.orLevel h₁).bind ((ih.conditional h₂).mono (by decide))

theorem reads_orLevel {x : Expr} (h : Parse.orLevel (fuel + 1) depth ts = .ok (x, rest)) :
    Reads 0 0 11 (fun m ts => Parse.orLevel m depth ts) ts x rest := by
  rw [Parse.orLevel] at h
  obtain ⟨⟨e, mid⟩, h₁, h₂⟩ := bind_eq_ok.1 h
  refine .succ ?_
  simp only [Parse.orLevel]
  exact (ih.andLevel h₁).bind ((ih.orRest h₂).mono (by decide))

theorem reads_orRest {x : Expr} (h : Parse.orRest (fuel + 1) depth e ts = .ok (x, rest)) :
    Reads 0 0 1 (fun m ts => Parse.orRest m depth e ts) ts x rest := by
  rw [Parse.orRest] at h
  refine .succ ?_
  simp only [Parse.orRest]
  cases hw : word? "or" ts with
  | none =>
    rw [hw] at h
    cases h
    exact .absent' (fun ts' ha => word?_eq_none ha hw) (.pure e ts)
  | some r =>
    rw [hw] at h
    obtain ⟨⟨f, mid⟩, h₁, h₂⟩ := bind_eq_ok.1 h
    obtain rfl := word?_eq_some hw
    refine .cons ?_ (.ident "or")
    simp only [word?_cons]
    exact ((ih.andLevel h₁).mono (by decide)).bind ((ih.orRest h₂).mono (by decide))

theorem reads_conditional {x : Expr} (h : Parse.conditional (fuel + 1) depth e ts = .ok (x, rest)) :
    Reads 0 0 1 (fun m ts => Parse.conditional m depth e ts) ts x rest := by
  rw [Parse.conditional] at h
  refine .succ ?_
  simp only [Parse.conditional]
  cases hw : word? "if" ts with
  | none =>
    rw [hw] at h
    cases h
    exact .absent' (fun ts' ha => word?_eq_none ha hw) (.pure e ts)
  | some r =>
    rw [hw] at h
    obtain ⟨⟨c, mid⟩, h₁, h₂⟩ := bind_eq_ok.1 h
    obtain rfl := word?_eq_some hw
    refine .cons ?_ (.ident "if")
    simp only [word?_cons]
    refine ((ih.orLevel h₁).mono (by decide)).bind ?_
    dsimp only at h₂ ⊢
    cases hw : word? "else" mid with
    | none =>
      rw [hw] at h₂
      exact .absent' (fun ts' ha => word?_eq_none ha hw) ((ih.conditional h₂).mono (by decide))
    | some r =>
      rw [hw] at h₂
      obtain ⟨⟨f, mid'⟩, h₃, h₄⟩ := bind_eq_ok.1 h₂
      obtain ⟨⟨g, mid''⟩, h₅, h₆⟩ := bind_eq_ok.1 h₄
      obtain rfl := word?_eq_some hw
      refine .cons ?_ (.ident "else")
      simp only [word?_cons]
      exact ((ih.orLevel h₃).mono (by decide)).bind
        (((ih.conditional h₅).mono (by decide)).bind ((ih.conditional h₆).mono (by decide)))

theorem reads_andLevel {x : Expr} (h : Parse.andLevel (fuel + 1) depth ts = .ok (x, rest)) :
    Reads 0 0 10 (fun m ts => Parse.andLevel m depth ts) ts x rest := by
  rw [Parse.andLevel] at h
  obtain ⟨⟨e, mid⟩, h₁, h₂⟩ := bind_eq_ok.1 h
  refine .succ ?_
  simp only [Parse.andLevel]
  exact (ih.notLevel h₁).bind ((ih.andRest h₂).mono (by decide))

theorem reads_andRest {x : Expr} (h : Parse.andRest (fuel + 1) depth e ts = .ok (x, rest)) :
    Reads 0 0 1 (fun m ts => Parse.andRest m depth e ts) ts x rest := by
  rw [Parse.andRest] at h
  refine .succ ?_
  simp only [Parse.andRest]
  cases hw : word? "and" ts with
  | none =>
    rw [hw] at h
    cases h
    exact .absent' (fun ts' ha => word?_eq_none ha hw) (.pure e ts)
  | some r =>
    rw [hw] at h
    obtain ⟨⟨f, mid⟩, h₁, h₂⟩ := bind_eq_ok.1 h
    obtain rfl := word?_eq_some hw
    refine .cons ?_ (.ident "and")
    simp only [word?_cons]
    exact ((ih.notLevel h₁).mono (by decide)).bind ((ih.andRest h₂).mono (by decide))

theorem reads_notLevel {x : Expr} (h : Parse.notLevel (fuel + 1) depth ts = .ok (x, rest)) :
    Reads 0 0 9 (fun m ts => Parse.notLevel m depth ts) ts x rest := by
  rw [Parse.notLevel] at h
  refine .succ ?_
  simp only [Parse.notLevel]
  cases hw : word? "not" ts with
  | none =>
    rw [hw] at h
    obtain ⟨⟨e, mid⟩, h₁, h₂⟩ := bind_eq_ok.1 h
    exact .absent (fun ts' ha => word?_eq_none ha hw)
      ((ih.arithLevel (Nat.zero_le 4) h₁).bind ((ih.compareRest h₂).mono (by decide)))
  | some r =>
    rw [hw] at h
    obtain rfl := word?_eq_some hw
    refine .cons ?_ (.ident "not")
    simp only [word?_cons]
    cases depth with
    | zero => exact absurd h unexpected_ne_ok
    | succ depth =>
      obtain ⟨⟨e, mid⟩, h₁, h₂⟩ := bind_eq_ok.1 h
      cases h₂
      exact ((ih.notLevel h₁).mono (by decide)).bind (.pure e.not rest)

theorem reads_compareRest {x : Expr} (h : Parse.compareRest (fuel + 1) depth e ts = .ok (x, rest)) :
    Reads 0 0 1 (fun m ts => Parse.compareRest m depth e ts) ts x rest := by
  rw [Parse.compareRest] at h
  refine .succ ?_
  simp only [Parse.compareRest]
  cases hw : comparison? ts with
  | none =>
    rw [hw] at h
    cases h
    exact (Reads.pure e ts).congr fun m ts' ha => by rw [comparison?_eq_none ha hw]
  | some c =>
    rw [hw] at h
    cases c with
    | error x => cases h
    | ok c =>
      obtain ⟨op, negated, r⟩ := c
      obtain ⟨⟨f, mid⟩, h₁, h₂⟩ := bind_eq_ok.1 h
      obtain ⟨u, rfl, hu, hlength, hcons⟩ := comparison?_eq_some hw
      refine .drop ?_ hu
      simp only [hcons]
      exact ((ih.arithLevel (Nat.zero_le 4) h₁).mono (by omega)).bind
        ((ih.compareRest h₂).mono (by omega))

theorem reads_arithLevel {level : Nat} {x : Expr} (hlevel : level ≤ 4)
    (h : Parse.arithLevel (fuel + 1) depth level ts = .ok (x, rest)) :
    Reads 0 0 (8 - level) (fun m ts => Parse.arithLevel m depth level ts) ts x rest := by
  rw [Parse.arithLevel] at h
  obtain ⟨base, hbase⟩ : ∃ b, 8 - level = b + 1 := ⟨7 - level, by omega⟩
  rw [hbase]
  refine .succ ?_
  simp only [Parse.arithLevel]
  split at h
  · rename_i hge
    simp only [if_pos hge]
    exact (ih.signed h).mono (by omega)
  · rename_i hlt
    simp only [if_neg hlt]
    obtain ⟨⟨e, mid⟩, h₁, h₂⟩ := bind_eq_ok.1 h
    exact ((ih.arithLevel (by omega) h₁).mono (by omega)).bind
      ((ih.arithRest (by omega) h₂).mono (by omega))

theorem reads_signed {x : Expr} (h : Parse.signed (fuel + 1) depth ts = .ok (x, rest)) :
    Reads 0 0 3 (fun m ts => Parse.signed m depth ts) ts x rest := by
  rw [Parse.signed] at h
  obtain ⟨⟨e, mid⟩, h₁, h₂⟩ := bind_eq_ok.1 h
  obtain ⟨⟨f, mid'⟩, h₃, h₄⟩ := bind_eq_ok.1 h₂
  refine .succ ?_
  simp only [Parse.signed]
  exact (ih.minus h₁).bind
    (((ih.postfixes h₃).mono (by decide)).bind ((ih.filters h₄).mono (by decide)))

theorem reads_minus {x : Expr} (h : Parse.minus (fuel + 1) depth ts = .ok (x, rest)) :
    Reads 0 0 2 (fun m ts => Parse.minus m depth ts) ts x rest := by
  rw [Parse.minus] at h
  refine .succ ?_
  simp only [Parse.minus]
  cases hw : sign? "-" ts with
  | none =>
    rw [hw] at h
    exact .absent (fun ts' ha => sign?_eq_none ha hw) (ih.primary h)
  | some r =>
    rw [hw] at h
    obtain rfl := sign?_eq_some hw
    refine .cons ?_ (.sign fun _ => rfl)
    simp only [sign?_cons]
    cases depth with
    | zero => exact absurd h unexpected_ne_ok
    | succ depth =>
      obtain ⟨⟨e, mid⟩, h₁, h₂⟩ := bind_eq_ok.1 h
      cases h₂
      exact ((ih.minus h₁).mono (by decide)).bind (.pure e.neg rest)

theorem reads_arithRest {level : Nat} {x : Expr} (hlevel : level < 4)
    (h : Parse.arithRest (fuel + 1) depth level e ts = .ok (x, rest)) :
    Reads 0 0 1 (fun m ts => Parse.arithRest m depth level e ts) ts x rest := by
  refine .succ ?_
  by_cases hstop : ∀ s, ahead ts = some (.sign s) → arithmetic level s = none
  · rw [arithRest_stop hstop] at h
    cases h
    exact (Reads.pure e ts).congr fun m ts' ha => arithRest_stop (ha ▸ hstop)
  · obtain ⟨s, hs⟩ := Classical.not_forall.1 hstop
    obtain ⟨hs, hop⟩ := Classical.not_imp.1 hs
    obtain ⟨r, rfl⟩ := ahead_eq_some hs
    obtain ⟨op, hop⟩ := Option.ne_none_iff_exists'.1 hop
    rw [Parse.arithRest, hop] at h
    obtain ⟨⟨f, mid⟩, h₁, h₂⟩ := bind_eq_ok.1 h
    refine .cons ?_ (.sign (bracketChange_arithmetic hop))
    simp only [Parse.arithRest, hop]
    exact ((ih.arithLevel (by omega) h₁).mono (by simp; omega)).bind
      ((ih.arithRest hlevel h₂).mono (by simp))

theorem reads_items {close : String} {acc x : List Expr} (hclose : close ∈ [")", "]"])
    (h : Parse.items (fuel + 1) depth close acc ts = .ok (x, rest)) :
    Reads 1 0 13 (fun m ts => Parse.items m depth close acc ts) ts x rest := by
  have hend : Takes 1 0 [.sign close] := .closing (List.mem_append_left ["\x7d"] hclose)
  rw [Parse.items] at h
  refine .succ ?_
  simp only [Parse.items]
  cases hs : sign? close ts with
  | some r =>
    rw [hs] at h
    cases h
    obtain rfl := sign?_eq_some hs
    refine .cons ?_ hend
    simp only [sign?_cons]
    exact .pure acc.reverse rest
  | none =>
    rw [hs] at h
    obtain ⟨⟨e, mid⟩, h₁, h₂⟩ := bind_eq_ok.1 h
    refine .absent (fun ts' ha => sign?_eq_none ha hs) ?_
    refine (ih.expr h₁).inside.bind ?_
    dsimp only at h₂ ⊢
    cases hcomma : sign? "," mid with
    | some r =>
      rw [hcomma] at h₂
      obtain rfl := sign?_eq_some hcomma
      refine .cons ?_ (.sign fun _ => rfl)
      simp only [sign?_cons]
      exact (ih.items hclose h₂).mono (by decide)
    | none =>
      rw [hcomma] at h₂
      obtain ⟨r, h₃, h₄⟩ := bind_eq_ok.1 h₂
      cases h₄
      obtain rfl := sign_eq_ok h₃
      refine .absent (fun ts' ha => sign?_eq_none ha hcomma) ?_
      refine .cons ?_ hend
      simp only [sign_cons, ok_bind]
      exact .pure (e :: acc).reverse rest

theorem reads_entries {acc x : List (Expr × Expr)}
    (h : Parse.entries (fuel + 1) depth acc ts = .ok (x, rest)) :
    Reads 1 0 13 (fun m ts => Parse.entries m depth acc ts) ts x rest := by
  have hend : Takes 1 0 [.sign "\x7d"] := .closing (by decide)
  rw [Parse.entries] at h
  refine .succ ?_
  simp only [Parse.entries]
  cases hs : sign? "\x7d" ts with
  | some r =>
    rw [hs] at h
    cases h
    obtain rfl := sign?_eq_some hs
    refine .cons ?_ hend
    simp only [sign?_cons]
    exact .pure acc.reverse rest
  | none =>
    rw [hs] at h
    obtain ⟨⟨k, mid⟩, h₁, h₂⟩ := bind_eq_ok.1 h
    obtain ⟨r, h₃, h₄⟩ := bind_eq_ok.1 h₂
    obtain ⟨⟨v, mid'⟩, h₅, h₆⟩ := bind_eq_ok.1 h₄
    obtain rfl := sign_eq_ok h₃
    refine .absent (fun ts' ha => sign?_eq_none ha hs) ?_
    refine (ih.expr h₁).inside.bind ?_
    refine .cons ?_ (.sign fun _ => rfl)
    simp only [sign_cons, ok_bind]
    refine ((ih.expr h₅).inside.mono (by decide)).bind ?_
    dsimp only at h₆ ⊢
    cases hcomma : sign? "," mid' with
    | some r =>
      rw [hcomma] at h₆
      obtain rfl := sign?_eq_some hcomma
      refine .cons ?_ (.sign fun _ => rfl)
      simp only [sign?_cons]
      exact (ih.entries h₆).mono (by decide)
    | none =>
      rw [hcomma] at h₆
      obtain ⟨r, h₇, h₈⟩ := bind_eq_ok.1 h₆
      cases h₈
      obtain rfl := sign_eq_ok h₇
      refine .absent (fun ts' ha => sign?_eq_none ha hcomma) ?_
      refine .cons ?_ hend
      simp only [sign_cons, ok_bind]
      exact .pure ((k, v) :: acc).reverse rest

theorem reads_bound {stops : List String} {x : Option Expr}
    (h : Parse.bound (fuel + 1) depth stops ts = .ok (x, rest)) :
    Reads 0 0 13 (fun m ts => Parse.bound m depth stops ts) ts x rest := by
  rw [Parse.bound] at h
  refine .succ ?_
  simp only [Parse.bound]
  have hstops (ts' : List Token) (ha : ahead ts' = ahead ts) :
      (stops.any fun s => (sign? s ts').isSome) = stops.any fun s => (sign? s ts).isSome := by
    simp only [sign?_isSome_eq ha]
  split at h
  · rename_i hs
    cases h
    exact (Reads.pure none ts).congr fun m ts' ha => by rw [if_pos (hstops ts' ha ▸ hs)]
  · rename_i hs
    obtain ⟨⟨e, mid⟩, h₁, h₂⟩ := bind_eq_ok.1 h
    cases h₂
    have hread : Reads 0 0 12 (fun m ts => Parse.expr m depth ts >>= fun x => .ok (some x.1, x.2))
        ts (some e) rest := (ih.expr h₁).bind (.pure (some e) rest)
    exact hread.congr fun m ts' ha => by rw [if_neg (hstops ts' ha ▸ hs)]

theorem reads_primary {x : Expr} (h : Parse.primary (fuel + 1) depth ts = .ok (x, rest)) :
    Reads 0 0 1 (fun m ts => Parse.primary m depth ts) ts x rest := by
  refine .succ ?_
  match ts with
  | [] | .text _ :: _ | .outputStart :: _ | .outputEnd :: _ | .blockStart :: _ | .blockEnd :: _
  | .fault _ :: _ =>
    rw [Parse.primary.eq_def] at h
    exact absurd h unexpected_ne_ok
  | .ident y :: r =>
    refine .cons ?_ (.ident y)
    simp only [Parse.primary] at h ⊢
    split at h
    · rename_i hy
      cases h
      simp only [if_pos hy]
      exact .pure (Expr.bool true) _
    · rename_i hy
      simp only [if_neg hy]
      split at h
      · rename_i hy
        cases h
        simp only [if_pos hy]
        exact .pure (Expr.bool false) _
      · rename_i hy
        simp only [if_neg hy]
        split at h
        · rename_i hy
          cases h
          simp only [if_pos hy]
          exact .pure Expr.none rest
        · rename_i hy
          cases h
          simp only [if_neg hy]
          exact .pure (Expr.name y) _
  | .str s :: r =>
    refine .cons ?_ ⟨fun _ => rfl, by simp⟩
    simp only [Parse.primary] at h ⊢
    cases h
    exact (reads_joinTexts s r).mono (Nat.zero_le _)
  | .int n :: r =>
    refine .cons ?_ ⟨fun _ => rfl, by simp⟩
    simp only [Parse.primary] at h ⊢
    cases h
    exact .pure (Expr.int n) _
  | .float f :: r =>
    refine .cons ?_ ⟨fun _ => rfl, by simp⟩
    simp only [Parse.primary] at h ⊢
    cases h
    exact .pure (Expr.float f) _
  | .sign s :: r =>
    by_cases hround : s = "("
    · subst hround
      refine .cons ?_ (.opening (by decide))
      simp only [Parse.primary] at h ⊢
      cases hs : sign? ")" r with
      | some r' =>
        rw [hs] at h
        cases h
        obtain rfl := sign?_eq_some hs
        refine .cons ?_ (.closing (by decide))
        simp only [sign?_cons]
        exact .pure (Expr.list []) _
      | none =>
        rw [hs] at h
        obtain ⟨⟨e, mid⟩, h₁, h₂⟩ := bind_eq_ok.1 h
        refine .absent (fun ts' ha => sign?_eq_none ha hs) ?_
        refine ((ih.expr h₁).inside.mono (by decide)).bind ?_
        dsimp only at h₂ ⊢
        cases hcomma : sign? "," mid with
        | none =>
          rw [hcomma] at h₂
          obtain ⟨r', h₃, h₄⟩ := bind_eq_ok.1 h₂
          cases h₄
          obtain rfl := sign_eq_ok h₃
          refine .absent' (fun ts' ha => sign?_eq_none ha hcomma) ?_
          refine .cons ?_ (.closing (by decide))
          simp only [sign_cons, ok_bind]
          exact .pure x rest
        | some r' =>
          rw [hcomma] at h₂
          obtain ⟨⟨es, mid'⟩, h₃, h₄⟩ := bind_eq_ok.1 h₂
          cases h₄
          obtain rfl := sign?_eq_some hcomma
          refine .cons ?_ (.sign fun _ => rfl)
          simp only [sign?_cons]
          exact ((ih.items (by decide) h₃).mono (by decide)).bind (.pure (Expr.list es) _)
    by_cases hsquare : s = "["
    · subst hsquare
      refine .cons ?_ (.opening (by decide))
      simp only [Parse.primary] at h ⊢
      obtain ⟨⟨es, mid⟩, h₁, h₂⟩ := bind_eq_ok.1 h
      cases h₂
      exact ((ih.items (by decide) h₁).mono (by decide)).bind (.pure (Expr.list es) _)
    by_cases hcurly : s = "\x7b"
    · subst hcurly
      refine .cons ?_ (.opening (by decide))
      simp only [Parse.primary] at h ⊢
      obtain ⟨⟨es, mid⟩, h₁, h₂⟩ := bind_eq_ok.1 h
      cases h₂
      exact ((ih.entries h₁).mono (by decide)).bind (.pure (Expr.map es) _)
    rw [Parse.primary.eq_def] at h
    dsimp only at h
    split at h <;> simp_all [unexpected_ne_ok]

theorem reads_postfixes {x : Expr} (h : Parse.postfixes (fuel + 1) depth e ts = .ok (x, rest)) :
    Reads 0 0 1 (fun m ts => Parse.postfixes m depth e ts) ts x rest := by
  refine .succ ?_
  by_cases hstop : ∀ s ∈ [".", "[", "("], ahead ts ≠ some (.sign s)
  · rw [postfixes_stop hstop] at h
    cases h
    exact (Reads.pure e ts).congr fun m ts' ha => postfixes_stop (ha ▸ hstop)
  obtain ⟨s, hs, r, rfl⟩ : ∃ s ∈ [".", "[", "("], ∃ r, ts = .sign s :: r := by
    obtain ⟨s, hs⟩ := Classical.not_forall.1 hstop
    obtain ⟨hs, hhead⟩ := Classical.not_imp.1 hs
    exact ⟨s, hs, ahead_eq_some (Classical.not_not.1 hhead)⟩
  simp only [List.mem_cons, List.not_mem_nil, or_false] at hs
  obtain rfl | rfl | rfl := hs
  · -- an attribute, a method or a number after a point
    match r with
    | .ident y :: r =>
      refine .cons (.cons ?_ (.ident y)) (.sign fun _ => rfl)
      simp only [Parse.postfixes] at h ⊢
      cases hs : sign? "(" r with
      | some r' =>
        rw [hs] at h
        obtain ⟨⟨args, mid⟩, h₁, h₂⟩ := bind_eq_ok.1 h
        obtain rfl := sign?_eq_some hs
        refine .cons ?_ (.opening (by decide))
        simp only [sign?_cons]
        exact ((ih.items (by decide) h₁).mono (by decide)).bind ((ih.postfixes h₂).mono (by decide))
      | none =>
        rw [hs] at h
        exact .absent (fun ts' ha => sign?_eq_none ha hs) ((ih.postfixes h).mono (by decide))
    | .int n :: r =>
      refine .cons (.cons ?_ ⟨fun _ => rfl, by simp⟩) (.sign fun _ => rfl)
      simp only [Parse.postfixes] at h ⊢
      exact (ih.postfixes h).mono (by decide)
    | [] | .text _ :: _ | .outputStart :: _ | .outputEnd :: _ | .blockStart :: _ | .blockEnd :: _
    | .fault _ :: _ | .str _ :: _ | .float _ :: _ | .sign _ :: _ =>
      rw [Parse.postfixes.eq_def] at h
      exact absurd h unexpected_ne_ok
  · -- a subscript or a slice
    refine .cons ?_ (.opening (by decide))
    simp only [Parse.postfixes] at h ⊢
    obtain ⟨⟨start, mid⟩, h₁, h₂⟩ := bind_eq_ok.1 h
    refine ((ih.bound h₁).inside.mono (by decide)).bind ?_
    dsimp only at h₂ ⊢
    cases hs : sign? ":" mid with
    | none =>
      rw [hs] at h₂
      refine .absent' (fun ts' ha => sign?_eq_none ha hs) ?_
      cases start with
      | none => exact absurd h₂ unexpected_ne_ok
      | some i =>
        obtain ⟨r', h₃, h₄⟩ := bind_eq_ok.1 h₂
        obtain rfl := sign_eq_ok h₃
        refine .cons ?_ (.closing (by decide))
        simp only [sign_cons, ok_bind]
        exact (ih.postfixes h₄).mono (by decide)
    | some r' =>
      rw [hs] at h₂
      obtain ⟨⟨stop, mid'⟩, h₃, h₄⟩ := bind_eq_ok.1 h₂
      obtain rfl := sign?_eq_some hs
      refine .cons ?_ (.sign fun _ => rfl)
      simp only [sign?_cons]
      refine ((ih.bound h₃).inside.mono (by decide)).bind ?_
      dsimp only at h₄ ⊢
      cases hs : sign? ":" mid' with
      | none =>
        rw [hs] at h₄
        obtain ⟨r', h₅, h₆⟩ := bind_eq_ok.1 h₄
        obtain rfl := sign_eq_ok h₅
        refine .absent' (fun ts' ha => sign?_eq_none ha hs) ?_
        refine .cons ?_ (.closing (by decide))
        simp only [sign_cons, ok_bind]
        exact (ih.postfixes h₆).mono (by decide)
      | some r' =>
        rw [hs] at h₄
        obtain ⟨⟨step, mid''⟩, h₅, h₆⟩ := bind_eq_ok.1 h₄
        obtain ⟨r'', h₇, h₈⟩ := bind_eq_ok.1 h₆
        obtain rfl := sign?_eq_some hs
        obtain rfl := sign_eq_ok h₇
        refine .cons ?_ (.sign fun _ => rfl)
        simp only [sign?_cons]
        refine ((ih.bound h₅).inside.mono (by decide)).bind ?_
        refine .cons ?_ (.closing (by decide))
        simp only [sign_cons, ok_bind]
        exact (ih.postfixes h₈).mono (by decide)
  · -- a call
    refine .cons ?_ (.opening (by decide))
    simp only [Parse.postfixes] at h ⊢
    obtain ⟨⟨args, mid⟩, h₁, h₂⟩ := bind_eq_ok.1 h
    refine ((ih.items (by decide) h₁).mono (by decide)).bind ?_
    dsimp only at h₂ ⊢
    split at h₂ <;> exact (ih.postfixes h₂).mono (by decide)

theorem reads_testRest {negated : Bool} {x : Expr}
    (h : testRest fuel depth e negated ts = .ok (x, rest)) :
    Reads 0 0 1 (fun m ts => testRest m depth e negated ts) ts x rest := by
  rw [testRest] at h
  obtain ⟨⟨y, mid⟩, h₁, h₂⟩ := bind_eq_ok.1 h
  obtain rfl := ident_eq_ok h₁
  refine .cons ?_ (.ident y)
  simp only [testRest, ident, ok_bind]
  dsimp only at h₂
  cases hs : sign? "(" mid with
  | some r' =>
    rw [hs] at h₂
    obtain ⟨⟨args, mid'⟩, h₃, h₄⟩ := bind_eq_ok.1 h₂
    obtain rfl := sign?_eq_some hs
    refine .cons ?_ (.opening (by decide))
    simp only [sign?_cons]
    exact ((ih.items (by decide) h₃).mono (by decide)).bind ((ih.filters h₄).mono (by decide))
  | none =>
    rw [hs] at h₂
    refine .absent (fun ts' ha => sign?_eq_none ha hs) ?_
    dsimp only at h₂
    split at h₂
    · rename_i hstarts
      obtain ⟨⟨a, mid'⟩, h₃, h₄⟩ := bind_eq_ok.1 h₂
      obtain ⟨⟨b, mid''⟩, h₅, h₆⟩ := bind_eq_ok.1 h₄
      refine .ite (fun ts' ha => (startsArgument_eq ha).trans hstarts) ?_
      exact ((ih.minus h₃).mono (by decide)).bind
        (((ih.postfixes h₅).mono (by decide)).bind ((ih.filters h₆).mono (by decide)))
    · rename_i hstarts
      refine Reads.congr ((ih.filters h₂).mono (by decide)) fun m ts' ha => ?_
      rw [if_neg (startsArgument_eq ha ▸ hstarts)]

theorem reads_filters {x : Expr} (h : Parse.filters (fuel + 1) depth e ts = .ok (x, rest)) :
    Reads 0 0 1 (fun m ts => Parse.filters m depth e ts) ts x rest := by
  refine .succ ?_
  by_cases hpipe : ahead ts = some (.sign "|")
  · obtain ⟨r, rfl⟩ := ahead_eq_some hpipe
    rw [Parse.filters] at h
    obtain ⟨⟨y, mid⟩, h₁, h₂⟩ := bind_eq_ok.1 h
    obtain rfl := ident_eq_ok h₁
    refine .cons (.cons ?_ (.ident y)) (.sign fun _ => rfl)
    simp only [Parse.filters, ident, ok_bind]
    dsimp only at h₂
    cases hs : sign? "(" mid with
    | some r' =>
      rw [hs] at h₂
      obtain ⟨⟨args, mid'⟩, h₃, h₄⟩ := bind_eq_ok.1 h₂
      obtain rfl := sign?_eq_some hs
      refine .cons ?_ (.opening (by decide))
      simp only [sign?_cons]
      exact ((ih.items (by decide) h₃).mono (by decide)).bind ((ih.filters h₄).mono (by decide))
    | none =>
      rw [hs] at h₂
      exact .absent (fun ts' ha => sign?_eq_none ha hs) ((ih.filters h₂).mono (by decide))
  by_cases his : ahead ts = some (.ident "is")
  · obtain ⟨r, rfl⟩ := ahead_eq_some his
    rw [filters_is] at h
    refine .cons ?_ (.ident "is")
    simp only [filters_is]
    cases hw : word? "not" r with
    | some r' =>
      rw [hw] at h
      obtain rfl := word?_eq_some hw
      refine .cons ?_ (.ident "not")
      simp only [word?_cons]
      exact (ih.reads_testRest h).mono (by decide)
    | none =>
      rw [hw] at h
      exact .absent (fun ts' ha => word?_eq_none ha hw) ((ih.reads_testRest h).mono (by decide))
  · rw [filters_stop hpipe his] at h
    cases h
    exact (Reads.pure e ts).congr fun m ts' ha => filters_stop (ha ▸ hpipe) (ha ▸ his)

theorem succ : Sound (fuel + 1) where
  expr := ih.reads_expr
  conditional := ih.reads_conditional
  orLevel := ih.reads_orLevel
  orRest := ih.reads_orRest
  andLevel := ih.reads_andLevel
  andRest := ih.reads_andRest
  notLevel := ih.reads_notLevel
  compareRest := ih.reads_compareRest
  arithLevel := ih.reads_arithLevel
  arithRest := ih.reads_arithRest
  signed := ih.reads_signed
  minus := ih.reads_minus
  primary := ih.reads_primary
  items := ih.reads_items
  entries := ih.reads_entries
  postfixes := ih.reads_postfixes
  bound := ih.reads_bound
  filters := ih.reads_filters

end

end Sound

theorem sound (fuel : Nat) : Sound fuel := by
  induction fuel with
  | zero => exact .zero
  | succ fuel ih => exact ih.succ

/-- **An expression** that is parsed takes the tokens at the start of the list, closes the brackets
that it opens, and is the same before any other rest with the same token ahead. -/
theorem reads_expr {fuel depth : Nat} {e : Expr} (h : expr fuel depth ts = .ok (e, rest)) :
    Reads 0 0 12 (fun m ts => expr m depth ts) ts e rest :=
  (sound fuel).expr h

end Parse

end Runbook.Template
