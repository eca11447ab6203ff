import Runbook.Proofs.Yaml.Flow

/-!
# Nodes of values

`Node.ofJson` is the node of a value: collections are those of the value, and of a scalar the style
tells whether it is a text. The tokens of a value, in blocks or in brackets, are read as this node
(`readsNode_block`, `readsNode_flow`), each collection within the fuel that its tokens leave; so are
the documents that are written of an object (`Node.ofText_write_obj`, `Node.ofText_pretty_obj`).
-/

namespace Runbook.Yaml

mutual
/-- The node of a value whose texts have these styles. -/
def Node.ofJson (style : String → Style) : Json → Node
  | .arr vs => .sequence (Node.ofItems style vs) none
  | .obj es => .mapping (Node.ofFields style es) none
  | .str s => .scalar s (style s) none
  | v => .scalar ((word? v).getD "") .plain none

/-- The nodes of items. -/
def Node.ofItems (style : String → Style) : List Json → List Node
  | [] => []
  | v :: vs => Node.ofJson style v :: Node.ofItems style vs

/-- The nodes of fields, whose keys are texts. -/
def Node.ofFields (style : String → Style) : List (String × Json) → List (Node × Node)
  | [] => []
  | (k, v) :: es => (.scalar k (style k) none, Node.ofJson style v) :: Node.ofFields style es
end

/-- The style of a text in a document that is written. -/
def writtenStyle (s : String) : Style := Scanner.styleOf (formOf s)

/-- The style of a text in the form of JSON. -/
def quotedStyle (_ : String) : Style := .quoted

variable {b indentless : Bool} {fuel : Nat} {k : Known} {t : Token} {ts us rest : List Token}
  {n : Node} {u : Style} {s : String}

theorem readNode_items {ns : List Node}
    (h : readItems fuel false [] k (.entry :: ts) = .ok ((ns, k), rest)) :
    readNode (fuel + 1) b true k (.entry :: ts) = .ok ((.sequence ns none, k), rest) := by
  change (readItems fuel false [] k (.entry :: ts) >>= fun r =>
    Except.ok ((Node.sequence r.1.1 none, r.1.2), r.2)) = _
  rw [h]
  rfl

theorem readNode_sequence {ns : List Node} (h : readItems fuel true [] k ts = .ok ((ns, k), rest)) :
    readNode (fuel + 1) true indentless k (.blockSequence :: ts) =
      .ok ((.sequence ns none, k), rest) := by
  change (readItems fuel true [] k ts >>= fun r =>
    Except.ok ((Node.sequence r.1.1 none, r.1.2), r.2)) = _
  rw [h]
  rfl

theorem readNode_mapping {ns : List (Node × Node)}
    (h : readEntries fuel [] k ts = .ok ((ns, k), rest)) :
    readNode (fuel + 1) true indentless k (.blockMapping :: ts) =
      .ok ((.mapping ns none, k), rest) := by
  change (readEntries fuel [] k ts >>= fun r =>
    Except.ok ((Node.mapping r.1.1 none, r.1.2), r.2)) = _
  rw [h]
  rfl

theorem readNode_flowSequence {ns : List Node}
    (h : readFlowItems fuel true [] k ts = .ok ((ns, k), rest)) :
    readNode (fuel + 1) b indentless k (.openSequence :: ts) =
      .ok ((.sequence ns none, k), rest) := by
  change (readFlowItems fuel true [] k ts >>= fun r =>
    Except.ok ((Node.sequence r.1.1 none, r.1.2), r.2)) = _
  rw [h]
  rfl

theorem readNode_flowMapping {ns : List (Node × Node)}
    (h : readFlowEntries fuel true [] k ts = .ok ((ns, k), rest)) :
    readNode (fuel + 1) b indentless k (.openMapping :: ts) =
      .ok ((.mapping ns none, k), rest) := by
  change (readFlowEntries fuel true [] k ts >>= fun r =>
    Except.ok ((Node.mapping r.1.1 none, r.1.2), r.2)) = _
  rw [h]
  rfl

/-! ## Blocks -/

/-- A token that begins a node which follows a key or a dash. -/
def Begins (t : Token) : Prop := t ≠ .key ∧ t ≠ .value ∧ t ≠ .blockEnd

theorem readPart_of_begins (ht : Begins t) :
    readPart (fuel + 1) k (t :: ts) = readNode fuel true true k (t :: ts) := by
  obtain ⟨hkey, hvalue, hend⟩ := ht
  rw [readPart]
  all_goals
    rintro tail heq
    cases heq
    contradiction

theorem readItems_of_begins {indented : Bool} {acc : List Node} {k' : Known} {us : List Token}
    (ht : Begins t) (hentry : t ≠ .entry)
    (hnode : readNode fuel true false k (t :: ts) = .ok ((n, k'), us)) :
    readItems (fuel + 1) indented acc k (.entry :: t :: ts) =
      readItems fuel indented (n :: acc) k' us := by
  obtain ⟨hkey, hvalue, hend⟩ := ht
  rw [readItems, hnode]
  · rfl
  all_goals
    rintro tail heq
    cases heq
    contradiction

/-- The tokens of a value in a block are read as its node. A sequence that begins below its key ends
where no further dash follows. -/
def ReadsNode (v : Json) : Prop :=
  ∀ {below indentless : Bool} {fuel : Nat} {k : Known} {rest : List Token},
    (below = true → indentless = true ∧ ∀ t ∈ rest.head?, t ≠ .entry) →
    2 * (blockTokens below v).length + 2 ≤ fuel →
    readNode fuel true indentless k (blockTokens below v ++ rest) =
      .ok ((Node.ofJson writtenStyle v, k), rest)

theorem blockTokens_head (below : Bool) (v : Json) :
    ∃ t ts, blockTokens below v = t :: ts ∧ Begins t ∧ (below = false → t ≠ .entry) := by
  cases v with
  | arr vs =>
    cases vs with
    | nil => exact ⟨_, _, rfl, ⟨nofun, nofun, nofun⟩, nofun⟩
    | cons v vs =>
      cases below with
      | true => exact ⟨_, _, rfl, ⟨nofun, nofun, nofun⟩, nofun⟩
      | false => exact ⟨_, _, rfl, ⟨nofun, nofun, nofun⟩, nofun⟩
  | obj es => cases es <;> exact ⟨_, _, rfl, ⟨nofun, nofun, nofun⟩, nofun⟩
  | _ => exact ⟨_, _, rfl, ⟨nofun, nofun, nofun⟩, nofun⟩

theorem readItems_end {acc : List Node} (h : ∀ t ∈ rest.head?, t ≠ .entry) :
    readItems (fuel + 1) false acc k rest = .ok ((acc.reverse, k), rest) := by
  cases rest with
  | nil => rfl
  | cons t ts =>
    have ht := h t rfl
    cases t <;> first | rfl | contradiction

/-- The items of a sequence, up to where the sequence ends. -/
theorem readItems_itemTokens {vs : List Json} {indented : Bool} (acc : List Node)
    (hvs : ∀ v ∈ vs, ReadsNode v)
    (hend : ∀ fuel acc, readItems (fuel + 1) indented acc k rest = .ok ((acc.reverse, k), us))
    (hf : 2 * (itemTokens vs).length + 1 ≤ fuel) :
    readItems fuel indented acc k (itemTokens vs ++ rest) =
      .ok ((acc.reverse ++ Node.ofItems writtenStyle vs, k), us) := by
  induction vs generalizing acc fuel with
  | nil =>
    obtain ⟨fuel, rfl⟩ := Nat.exists_eq_add_one_of_ne_zero (n := fuel) (by omega)
    rw [Node.ofItems, List.append_nil]
    exact hend fuel acc
  | cons v vs ih =>
    obtain ⟨t, ts, htokens, hbegins, hentry⟩ := blockTokens_head false v
    have hitem : itemTokens (v :: vs) ++ rest =
        .entry :: (blockTokens false v ++ (itemTokens vs ++ rest)) := by simp [itemTokens]
    have hlen : (itemTokens (v :: vs)).length =
        (blockTokens false v).length + (itemTokens vs).length + 1 := by simp [itemTokens]
    obtain ⟨fuel, rfl⟩ := Nat.exists_eq_add_one_of_ne_zero (n := fuel) (by omega)
    have hnode : readNode fuel true false k (blockTokens false v ++ (itemTokens vs ++ rest)) =
        .ok ((Node.ofJson writtenStyle v, k), itemTokens vs ++ rest) :=
      hvs v List.mem_cons_self (fun h => absurd h Bool.false_ne_true) (by omega)
    rw [hitem]
    rw [htokens, List.cons_append] at hnode ⊢
    rw [readItems_of_begins hbegins (hentry rfl) hnode,
      ih _ (fun w hw => hvs w (List.mem_cons_of_mem _ hw)) (by omega)]
    simp [Node.ofItems]

/-- The fields of a mapping and its end. -/
theorem readEntries_fieldTokens {es : List (String × Json)} (hes : ∀ l v, (l, v) ∈ es → ReadsNode v)
    {acc : List (Node × Node)} (hf : 2 * (fieldTokens es).length + 1 ≤ fuel) :
    readEntries fuel acc k (fieldTokens es ++ .blockEnd :: rest) =
      .ok ((acc.reverse ++ Node.ofFields writtenStyle es, k), rest) := by
  induction es generalizing acc fuel with
  | nil =>
    obtain ⟨fuel, rfl⟩ := Nat.exists_eq_add_one_of_ne_zero (n := fuel) (by omega)
    rw [Node.ofFields, List.append_nil]
    rfl
  | cons e es ih =>
    obtain ⟨l, v⟩ := e
    obtain ⟨t, ts, htokens, hbegins, -⟩ := blockTokens_head (isSimpleKey l) v
    let more := fieldTokens es ++ .blockEnd :: rest
    have hfield : fieldTokens ((l, v) :: es) ++ .blockEnd :: rest = .key ::
        .scalar l (writtenStyle l) :: .value :: (blockTokens (isSimpleKey l) v ++ more) := by
      simp [fieldTokens, Scanner.textToken, writtenStyle, more]
    have hlen : (fieldTokens ((l, v) :: es)).length =
        (blockTokens (isSimpleKey l) v).length + (fieldTokens es).length + 3 := by
      simp [fieldTokens]
    have hmore : ∀ u ∈ more.head?, u ≠ .entry := by
      cases es with
      | nil => rintro _ ⟨⟩; exact Token.noConfusion
      | cons e es => rintro _ ⟨⟩; exact Token.noConfusion
    obtain ⟨fuel, rfl⟩ : ∃ m, fuel = m + 3 := ⟨fuel - 3, by omega⟩
    have hvalue : readPart (fuel + 2) k (blockTokens (isSimpleKey l) v ++ more) =
        .ok ((Node.ofJson writtenStyle v, k), more) := by
      have hnode : readNode (fuel + 1) true true k (blockTokens (isSimpleKey l) v ++ more) =
          .ok ((Node.ofJson writtenStyle v, k), more) :=
        hes l v List.mem_cons_self (fun _ => ⟨rfl, hmore⟩) (by omega)
      rw [htokens, List.cons_append] at hnode ⊢
      rw [readPart_of_begins hbegins, hnode]
    rw [hfield]
    change (readPart (fuel + 2) k (blockTokens (isSimpleKey l) v ++ more) >>= fun r =>
      readEntries (fuel + 2) ((.scalar l (writtenStyle l) none, r.1.1) :: acc) r.1.2 r.2) = _
    rw [hvalue]
    change readEntries (fuel + 2)
      ((.scalar l (writtenStyle l) none, Node.ofJson writtenStyle v) :: acc) k more = _
    rw [ih (fun m w hw => hes m w (List.mem_cons_of_mem _ hw)) (by omega)]
    simp [Node.ofFields]

/-- **A value in a block** is read as its node. -/
theorem readsNode_block (v : Json) : ReadsNode v := by
  have hscalar {v : Json} {s : String} {u : Style} (htokens : ∀ b, blockTokens b v = [.scalar s u])
      (hnode : Node.ofJson writtenStyle v = .scalar s u none) : ReadsNode v := by
    intro below indentless fuel k rest _ hf
    rw [htokens, hnode]
    obtain ⟨fuel, rfl⟩ := Nat.exists_eq_add_one_of_ne_zero (n := fuel) (by omega)
    rfl
  induction v using Json.induction with
  | null => exact hscalar (fun _ => rfl) rfl
  | bool b => exact hscalar (fun _ => rfl) rfl
  | int i => exact hscalar (fun _ => rfl) rfl
  | double x => exact hscalar (fun _ => rfl) rfl
  | str s => exact hscalar (fun _ => rfl) rfl
  | arr vs ih =>
    intro below indentless fuel k rest hbelow hf
    cases vs with
    | nil =>
      obtain ⟨fuel, rfl⟩ : ∃ m, fuel = m + 2 := ⟨fuel - 2, by omega⟩
      rfl
    | cons v vs =>
      obtain ⟨fuel, rfl⟩ := Nat.exists_eq_add_one_of_ne_zero (n := fuel) (by omega)
      cases below with
      | true =>
        obtain ⟨rfl, hrest⟩ := hbelow rfl
        have hend (fuel : Nat) (acc : List Node) :
            readItems (fuel + 1) false acc k rest = .ok ((acc.reverse, k), rest) :=
          readItems_end hrest
        have hlen : 2 * (itemTokens (v :: vs)).length + 1 ≤ fuel := Nat.le_of_succ_le_succ hf
        exact readNode_items (readItems_itemTokens [] ih hend hlen)
      | false =>
        have hshape : blockTokens false (.arr (v :: vs)) ++ rest =
            .blockSequence :: (itemTokens (v :: vs) ++ .blockEnd :: rest) := by simp [blockTokens]
        have htokens : (blockTokens false (.arr (v :: vs))).length =
            (itemTokens (v :: vs)).length + 2 := by simp [blockTokens]
        have hlen : 2 * (itemTokens (v :: vs)).length + 1 ≤ fuel := by omega
        rw [hshape]
        exact readNode_sequence (readItems_itemTokens [] ih (fun fuel acc => rfl) hlen)
  | obj es ih =>
    intro below indentless fuel k rest hbelow hf
    cases es with
    | nil =>
      obtain ⟨fuel, rfl⟩ : ∃ m, fuel = m + 2 := ⟨fuel - 2, by omega⟩
      rfl
    | cons e es =>
      obtain ⟨fuel, rfl⟩ := Nat.exists_eq_add_one_of_ne_zero (n := fuel) (by omega)
      have hshape : blockTokens below (.obj (e :: es)) ++ rest =
          .blockMapping :: (fieldTokens (e :: es) ++ .blockEnd :: rest) := by simp [blockTokens]
      have htokens : (blockTokens below (.obj (e :: es))).length =
          (fieldTokens (e :: es)).length + 2 := by simp [blockTokens]
      have hlen : 2 * (fieldTokens (e :: es)).length + 1 ≤ fuel := by omega
      rw [hshape]
      exact readNode_mapping (readEntries_fieldTokens ih hlen)

/-! ## Brackets -/

/-- A token that begins a value in brackets. -/
def BeginsFlow (t : Token) : Prop :=
  t ≠ .key ∧ t ≠ .value ∧ t ≠ .comma ∧ t ≠ .closeSequence ∧ t ≠ .closeMapping

/-- The tokens of a value in brackets are read as its node. -/
def ReadsFlowNode (v : Json) : Prop :=
  ∀ {b indentless : Bool} {fuel : Nat} {k : Known} {rest : List Token},
    2 * (flowTokens v).length + 2 ≤ fuel →
    readNode fuel b indentless k (flowTokens v ++ rest) =
      .ok ((Node.ofJson quotedStyle v, k), rest)

theorem flowTokens_head (v : Json) : ∃ t ts, flowTokens v = t :: ts ∧ BeginsFlow t := by
  cases v <;> exact ⟨_, _, rfl, nofun, nofun, nofun, nofun, nofun⟩

/-- What stands in front of an item: nothing, or a comma behind another item. -/
def separator (first : Bool) : List Token := if first then [] else [.comma]

theorem readFlowItems_of_begins {first : Bool} {acc : List Node} (ht : BeginsFlow t)
    (hnode : readNode fuel false false k (t :: ts) = .ok ((n, k), us)) :
    readFlowItems (fuel + 1) first acc k (separator first ++ t :: ts) =
      readFlowItems fuel false (n :: acc) k us := by
  obtain ⟨hkey, -, -, hclose, -⟩ := ht
  have hstep : readFlowItems (fuel + 1) first acc k (separator first ++ t :: ts) =
      readNode fuel false false k (t :: ts) >>= fun r =>
        readFlowItems fuel false (r.1.1 :: acc) r.1.2 r.2 := by
    cases first <;> cases t <;> first | rfl | contradiction
  rw [hstep, hnode]
  rfl

theorem readFlowPart_of_begins (ht : BeginsFlow t) :
    readFlowPart (fuel + 1) k (t :: ts) = readNode fuel false false k (t :: ts) := by
  obtain ⟨-, hvalue, hcomma, hsequence, hmapping⟩ := ht
  cases t <;> first | rfl | contradiction

theorem readFlowEntries_key {first : Bool} {acc : List (Node × Node)} (ht : BeginsFlow t)
    (hnode : readNode fuel false false k (t :: ts) = .ok ((n, k), us)) :
    readFlowEntries (fuel + 3) first acc k
        (separator first ++ .key :: .scalar s u :: .value :: t :: ts) =
      readFlowEntries (fuel + 2) false ((.scalar s u none, n) :: acc) k us := by
  have hstep : readFlowEntries (fuel + 3) first acc k
      (separator first ++ .key :: .scalar s u :: .value :: t :: ts) =
        readFlowPart (fuel + 1) k (t :: ts) >>= fun r =>
          readFlowEntries (fuel + 2) false ((.scalar s u none, r.1.1) :: acc) r.1.2 r.2 := by
    cases first <;> rfl
  rw [hstep, readFlowPart_of_begins ht, hnode]
  rfl

/-- The items of a sequence in brackets, up to its end. -/
theorem readFlowItems_flowItemTokens {v : Json} {vs : List Json} {acc : List Node} (first : Bool)
    (hvs : ∀ w ∈ v :: vs, ReadsFlowNode w)
    (hf : 2 * (flowItemTokens (v :: vs)).length + 3 ≤ fuel) :
    readFlowItems fuel first acc k
        (separator first ++ (flowItemTokens (v :: vs) ++ .closeSequence :: rest)) =
      .ok ((acc.reverse ++ Node.ofItems quotedStyle (v :: vs), k), rest) := by
  induction vs generalizing v first acc fuel with
  | nil =>
    obtain ⟨t, ts, htokens, hbegins⟩ := flowTokens_head v
    rw [flowItemTokens] at hf ⊢
    obtain ⟨fuel, rfl⟩ : ∃ m, fuel = m + 2 := ⟨fuel - 2, by omega⟩
    have hnode : readNode (fuel + 1) false false k (flowTokens v ++ .closeSequence :: rest) =
        .ok ((Node.ofJson quotedStyle v, k), .closeSequence :: rest) :=
      hvs v List.mem_cons_self (by omega)
    rw [htokens, List.cons_append] at hnode ⊢
    rw [readFlowItems_of_begins hbegins hnode]
    change Except.ok _ = _
    simp [Node.ofItems]
  | cons w vs ih =>
    obtain ⟨t, ts, htokens, hbegins⟩ := flowTokens_head v
    let more := flowItemTokens (w :: vs) ++ .closeSequence :: rest
    have hitem : flowItemTokens (v :: w :: vs) =
        flowTokens v ++ .comma :: flowItemTokens (w :: vs) := by
      rw [flowItemTokens]
      exact List.cons_ne_nil w vs
    rw [hitem, List.length_append, List.length_cons] at hf
    rw [hitem, List.append_assoc, List.cons_append]
    obtain ⟨fuel, rfl⟩ := Nat.exists_eq_add_one_of_ne_zero (n := fuel) (by omega)
    have hnode : readNode fuel false false k (flowTokens v ++ .comma :: more) =
        .ok ((Node.ofJson quotedStyle v, k), separator false ++ more) :=
      hvs v List.mem_cons_self (by omega)
    rw [htokens, List.cons_append] at hnode ⊢
    rw [readFlowItems_of_begins hbegins hnode,
      ih _ (fun u hu => hvs u (List.mem_cons_of_mem _ hu)) (by omega)]
    simp [Node.ofItems]

/-- The fields of a mapping in braces, up to its end. -/
theorem readFlowEntries_flowFieldTokens {l : String} {v : Json} {es : List (String × Json)}
    {acc : List (Node × Node)} (first : Bool)
    (hes : ∀ m w, (m, w) ∈ (l, v) :: es → ReadsFlowNode w)
    (hf : 2 * (flowFieldTokens ((l, v) :: es)).length + 3 ≤ fuel) :
    readFlowEntries fuel first acc k
        (separator first ++ (flowFieldTokens ((l, v) :: es) ++ .closeMapping :: rest)) =
      .ok ((acc.reverse ++ Node.ofFields quotedStyle ((l, v) :: es), k), rest) := by
  induction es generalizing l v first acc fuel with
  | nil =>
    obtain ⟨t, ts, htokens, hbegins⟩ := flowTokens_head v
    rw [flowFieldTokens] at hf ⊢
    simp only [List.length_cons] at hf
    obtain ⟨fuel, rfl⟩ : ∃ m, fuel = m + 3 := ⟨fuel - 3, by omega⟩
    have hnode : readNode fuel false false k (flowTokens v ++ .closeMapping :: rest) =
        .ok ((Node.ofJson quotedStyle v, k), .closeMapping :: rest) :=
      hes l v List.mem_cons_self (by omega)
    simp only [List.cons_append]
    rw [htokens, List.cons_append] at hnode ⊢
    rw [readFlowEntries_key hbegins hnode]
    change Except.ok _ = _
    simp [Node.ofFields, quotedStyle]
  | cons e es ih =>
    obtain ⟨m, w⟩ := e
    obtain ⟨t, ts, htokens, hbegins⟩ := flowTokens_head v
    let more := flowFieldTokens ((m, w) :: es) ++ .closeMapping :: rest
    have hfield : flowFieldTokens ((l, v) :: (m, w) :: es) = .key :: .scalar l .quoted :: .value ::
        (flowTokens v ++ .comma :: flowFieldTokens ((m, w) :: es)) := by
      rw [flowFieldTokens]
      · rfl
      · exact List.cons_ne_nil (m, w) es
    rw [hfield] at hf
    simp only [List.length_cons, List.length_append] at hf
    obtain ⟨fuel, rfl⟩ : ∃ m, fuel = m + 3 := ⟨fuel - 3, by omega⟩
    have hnode : readNode fuel false false k (flowTokens v ++ .comma :: more) =
        .ok ((Node.ofJson quotedStyle v, k), separator false ++ more) :=
      hes l v List.mem_cons_self (by omega)
    rw [hfield]
    simp only [List.cons_append, List.append_assoc]
    rw [htokens, List.cons_append] at hnode ⊢
    rw [readFlowEntries_key hbegins hnode,
      ih _ (fun k u hu => hes k u (List.mem_cons_of_mem _ hu)) (by omega)]
    simp [Node.ofFields, quotedStyle]

/-- **A value in brackets** is read as its node. -/
theorem readsNode_flow (v : Json) : ReadsFlowNode v := by
  have hscalar {v : Json} {s : String} {u : Style} (htokens : flowTokens v = [.scalar s u])
      (hnode : Node.ofJson quotedStyle v = .scalar s u none) : ReadsFlowNode v := by
    intro b indentless fuel k rest hf
    rw [htokens, hnode]
    obtain ⟨fuel, rfl⟩ := Nat.exists_eq_add_one_of_ne_zero (n := fuel) (by omega)
    rfl
  induction v using Json.induction with
  | null => exact hscalar rfl rfl
  | bool b => exact hscalar rfl rfl
  | int i => exact hscalar rfl rfl
  | double x => exact hscalar rfl rfl
  | str s => exact hscalar rfl rfl
  | arr vs ih =>
    intro b indentless fuel k rest hf
    obtain ⟨fuel, rfl⟩ : ∃ m, fuel = m + 2 := ⟨fuel - 2, by omega⟩
    cases vs with
    | nil => rfl
    | cons v vs =>
      have hshape : flowTokens (.arr (v :: vs)) ++ rest = .openSequence ::
          (flowItemTokens (v :: vs) ++ .closeSequence :: rest) := by simp [flowTokens]
      have htokens : (flowTokens (.arr (v :: vs))).length =
          (flowItemTokens (v :: vs)).length + 2 := by simp [flowTokens]
      have hlen : 2 * (flowItemTokens (v :: vs)).length + 3 ≤ fuel + 1 := by omega
      rw [hshape]
      exact readNode_flowSequence (readFlowItems_flowItemTokens true ih hlen)
  | obj es ih =>
    intro b indentless fuel k rest hf
    obtain ⟨fuel, rfl⟩ : ∃ m, fuel = m + 2 := ⟨fuel - 2, by omega⟩
    cases es with
    | nil => rfl
    | cons e es =>
      have hshape : flowTokens (.obj (e :: es)) ++ rest = .openMapping ::
          (flowFieldTokens (e :: es) ++ .closeMapping :: rest) := by simp [flowTokens]
      have htokens : (flowTokens (.obj (e :: es))).length =
          (flowFieldTokens (e :: es)).length + 2 := by simp [flowTokens]
      have hlen : 2 * (flowFieldTokens (e :: es)).length + 3 ≤ fuel + 1 := by omega
      rw [hshape]
      exact readNode_flowMapping (readFlowEntries_flowFieldTokens true ih hlen)

/-! ## Documents -/

/-- The document of a text whose tokens are those of one collection. -/
theorem Node.ofText_eq (h : Token.ofText s = .ok (t :: ts))
    (ht : t = .blockMapping ∨ t = .openMapping)
    (hnode : readNode (4 * (t :: ts).length + 4) true false {} (t :: ts) =
      .ok ((n, k), [.finish])) :
    Node.ofText s = .ok (some n) := by
  have hread : Node.ofText s = (readNode (4 * (t :: ts).length + 4) true false {} (t :: ts) >>=
      fun r => readEnd r.2 >>= fun _ => .ok (some r.1.1)) := by
    have hnone : ¬ (t :: ts).length < (t :: ts).length := Nat.lt_irrefl _
    rw [Node.ofText, h]
    rcases ht with rfl | rfl
    all_goals
      dsimp only [bind, Except.bind, readDirectives]
      rw [if_neg hnone]
      cases readNode _ _ _ _ _ <;> rfl
  rw [hread, hnode]
  rfl

/-- **The document that is written** of an object holds its node. -/
theorem Node.ofText_write_obj {k : String} {v : Json} {es : List (String × Json)}
    (hv : Json.isIntegral (.obj ((k, v) :: es)) = true) :
    Node.ofText (write (.obj ((k, v) :: es))) =
      .ok (some (Node.ofJson writtenStyle (.obj ((k, v) :: es)))) := by
  have htokens : Token.ofText (write (.obj ((k, v) :: es))) =
      .ok (blockTokens false (.obj ((k, v) :: es)) ++ [.finish]) := by
    rw [tokens_write hv]
    simp [blockTokens]
  have hnode : readNode (4 * (blockTokens false (.obj ((k, v) :: es)) ++ [Token.finish]).length + 4)
      true false {} (blockTokens false (.obj ((k, v) :: es)) ++ [.finish]) =
        .ok ((Node.ofJson writtenStyle (.obj ((k, v) :: es)), {}), [.finish]) :=
    readsNode_block _ (fun h => absurd h Bool.false_ne_true) (by rw [List.length_append]; omega)
  exact Node.ofText_eq htokens (.inl rfl) hnode

/-- **The form of JSON** of an object holds its node. -/
theorem Node.ofText_pretty_obj {e : String × Json} {es : List (String × Json)}
    (hint : Json.isIntegral (.obj (e :: es)) = true) (hv : isCommon (.obj (e :: es)) = true) :
    Node.ofText (Json.pretty (.obj (e :: es))) =
      .ok (some (Node.ofJson quotedStyle (.obj (e :: es)))) := by
  have hnode : readNode (4 * (flowTokens (.obj (e :: es)) ++ [Token.finish]).length + 4)
      true false {} (flowTokens (.obj (e :: es)) ++ [.finish]) =
        .ok ((Node.ofJson quotedStyle (.obj (e :: es)), {}), [.finish]) :=
    readsNode_flow _ (by rw [List.length_append]; omega)
  exact Node.ofText_eq (Scanner.tokens_pretty hint hv) (.inr rfl) hnode

/-- The form of JSON is no document when it holds a character that no document may hold. -/
theorem Node.ofText_pretty_refused {e : String × Json} {es : List (String × Json)}
    (h : ∃ c ∈ (Json.pretty (.obj (e :: es))).toList, isAllowed c = false) :
    Node.ofText (Json.pretty (.obj (e :: es))) = .error .character := by
  obtain ⟨c, hc, hrefused⟩ := h
  have hall : ¬ (Json.pretty (.obj (e :: es))).toList.all isAllowed = true := by
    intro hall
    rw [List.all_eq_true.1 hall c hc] at hrefused
    cases hrefused
  have hmark : dropByteOrderMark (Json.pretty (.obj (e :: es))).toList =
      (Json.pretty (.obj (e :: es))).toList := by
    rw [Scanner.toList_pretty]
    rfl
  have htokens : Token.ofText (Json.pretty (.obj (e :: es))) = .error .character := by
    rw [Token.ofText, hmark]
    exact if_neg hall
  rw [Node.ofText, htokens]
  rfl

end Runbook.Yaml
