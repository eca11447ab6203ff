import Runbook.Script.Eval

/-!
# Scripts that are a lone name

The shortest script of use is the name of a variable. It parses to that variable and nothing else
(`Source.parse_name`), and running it gives the value of the innermost variable of the name and
leaves all variables as they are (`run_name`). That takes two levels of nesting, two operations and
some time, which limits have to leave (`Limits.Allow`).
-/

namespace Runbook.Script

/-- The limits leave room for a lone name. -/
structure Limits.Allow (l : Limits) : Prop where
  depth : l.depth = 0 ∨ 2 ≤ l.depth
  operations : l.operations = 0 ∨ 2 ≤ l.operations
  seconds : l.seconds ≠ 0

namespace Parser

variable {p : Place} {fuel : Nat} {name : String}

theorem deeper_eq (h : p.limit = 0 ∨ p.depth + 1 ≤ p.limit) :
    p.deeper = pure { p with depth := p.depth + 1 } := by
  rw [Place.deeper, if_neg]
  simp
  omega

theorem expr_name (h : p.limit = 0 ∨ p.depth + 1 ≤ p.limit) :
    expr (fuel + 3) p [.ident name] = .ok (.var name, []) := by
  rw [expr, deeper_eq h]
  rfl

theorem stmt_name (h : p.limit = 0 ∨ p.depth + 2 ≤ p.limit) :
    stmt (fuel + 4) p [.ident name] = .ok (.expr (.var name), []) := by
  have hdeeper := deeper_eq (p := p) (h.imp_right fun h => by omega)
  have hexpr : expr (fuel + 3) { p with depth := p.depth + 1 } [.ident name] =
      .ok (.var name, []) := expr_name h
  rw [stmt, hdeeper]
  show Except.bind (expr (fuel + 3) _ [.ident name]) _ = _
  rw [hexpr]
  rfl

theorem script_name (h : p.limit = 0 ∨ p.depth + 2 ≤ p.limit) :
    script (fuel + 6) p ⟨[], []⟩ [.ident name] = .ok (⟨[.expr (.var name)], []⟩, []) := by
  rw [script]
  show Except.bind (stmt (fuel + 5) p [.ident name]) _ = _
  rw [stmt_name h]
  rfl

end Parser

/-- **A lone name** is a script of one variable. -/
theorem Source.parse_name {depth text : Nat} {name : String} (h : depth = 0 ∨ 2 ≤ depth)
    (htokens : Token.ofScript name = [.ident name]) :
    Source.parse depth text name = .ok ⟨[.expr (.var name)], []⟩ := by
  rw [Source.parse, htokens]
  show Except.map Prod.fst (Parser.script 32 _ ⟨[], []⟩ [.ident name]) = _
  rw [Parser.script_name h]
  rfl

namespace Eval

variable {α β : Type} {h : Host} {m t : Machine}

theorem bind_of_ok {act : Eval α} {k : α → Eval β} {a : α} (ha : act m = .ok a t) :
    (act >>= k) m = k a t := by
  change EStateM.bind act k m = _
  rw [EStateM.bind, ha]

theorem tick_eq (hops : h.limits.operations = 0 ∨ m.operations + 1 ≤ h.limits.operations)
    (hseconds : h.limits.seconds ≠ 0) :
    tick h m = .ok () { m with operations := m.operations + 1 } := by
  have hmore : ¬(h.limits.operations != 0 && m.operations + 1 > h.limits.operations) = true := by
    simp
    omega
  rw [tick]
  dsimp only
  rw [if_neg hmore, if_neg (by simpa using hseconds)]

theorem slot_eq {name : String} {s : Slot} (hs : m.slots.find? (fun s => s.name == name) = some s) :
    slot name m = .ok s m := by
  have hget : (get : Eval Machine) m = .ok m m := rfl
  rw [slot, bind_of_ok hget, hs]
  rfl

theorem expr_name {fuel : Nat} {name : String} {s : Slot}
    (hops : h.limits.operations = 0 ∨ m.operations + 1 ≤ h.limits.operations)
    (hseconds : h.limits.seconds ≠ 0)
    (hs : m.slots.find? (fun s => s.name == name) = some s) :
    expr h (fuel + 1) (.var name) m = .ok s.value { m with operations := m.operations + 1 } := by
  have hslot : slot name { m with operations := m.operations + 1 } =
      .ok s { m with operations := m.operations + 1 } := slot_eq hs
  rw [expr, bind_of_ok (tick_eq hops hseconds)]
  exact bind_of_ok hslot

/-- A lone name counts as two operations, one for the statement and one for the expression. -/
theorem stmt_name {fuel : Nat} {name : String} {s : Slot}
    (hops : h.limits.operations = 0 ∨ m.operations + 2 ≤ h.limits.operations)
    (hseconds : h.limits.seconds ≠ 0)
    (hs : m.slots.find? (fun s => s.name == name) = some s) :
    stmt h (fuel + 2) (.expr (.var name)) m =
      .ok s.value { m with operations := m.operations + 2 } := by
  rw [stmt, bind_of_ok (tick_eq (hops.imp_right fun h => by omega) hseconds)]
  exact expr_name (m := { m with operations := m.operations + 1 }) hops hseconds hs

end Eval

/-- Running a lone name gives the value of its innermost variable. -/
theorem run_name {limits : Limits} {slots : List Slot} {name : String} {s : Slot} (now : Instant)
    (hl : limits.Allow) (htokens : Token.ofScript name = [.ident name])
    (hs : slots.find? (fun s => s.name == name) = some s) :
    run limits now slots name = .ok (s.value, slots) := by
  obtain ⟨fuel, hfuel⟩ : ∃ fuel, 8 * (name.length + 4) * (limits.calls + 2) = fuel + 2 :=
    ⟨8 * (name.length + 4) * (limits.calls + 2) - 2, by
      have := Nat.mul_le_mul (show 32 ≤ 8 * (name.length + 4) by omega)
        (show 2 ≤ limits.calls + 2 by omega)
      omega⟩
  have hstmt (m : Machine) (hm : m.operations = 0) (hslots : m.slots = slots) :
      Eval.stmt ⟨[], limits, now⟩ (fuel + 2) (.expr (.var name)) m =
        .ok s.value { m with operations := m.operations + 2 } :=
    Eval.stmt_name (by rw [hm]; exact hl.operations) hl.seconds (by rw [hslots]; exact hs)
  rw [run, Source.parse_name hl.depth htokens]
  dsimp only
  rw [hfuel, List.foldlM_cons, Eval.bind_of_ok (hstmt _ rfl rfl)]
  rfl

end Runbook.Script
