import Runbook.Proofs.Json.Decode
import Runbook.Proofs.Json.Integral
import Runbook.Proofs.Json.Proper
import Runbook.Proofs.Yaml.Node
import Runbook.Yaml.Decode

/-!
# Decoding the nodes of values

Every decoded value is one that a document holds (`held_of_value`), and without doubles such a value
is decoded from its node (`value_ofJson`), given that no text in plain style stands for something
else (`Faithful`). Of an object with distinct keys a record has its fields (`record_ofJson`), to be
read one by one (`getD_recordOf`, `getD_optional`); and of a record that was read it is known what
its fields were decoded from (`of_getD`).
-/

namespace Runbook.Yaml

/-- Only texts that stand for themselves are plain. -/
def Faithful (style : String → Style) : Prop := ∀ s, style s = .plain → Scalar.ofPlain s = .text s

theorem faithful_writtenStyle : Faithful writtenStyle := by
  intro s h
  unfold writtenStyle at h
  cases hform : formOf s with
  | plain => exact (plainText_of_form hform).2
  | _ => rw [hform] at h; cases h

theorem faithful_quotedStyle : Faithful quotedStyle := nofun

namespace NodeDecoder

variable {style : String → Style} {depth : Nat} {v : Json} {vs : List Json} {es : Fields}
  {s : String}

/-! ## Values -/

theorem resolve_text (hs : Faithful style) : Scalar.resolve s (style s) none = .ok (.text s) := by
  cases h : style s with
  | plain => exact congrArg Except.ok (hs s h)
  | _ => rfl

theorem items_ofItems {path : String} {i : Nat}
    (h : ∀ v ∈ vs, ∀ path, value path depth (Node.ofJson style v) = .ok v) :
    items path i depth (Node.ofItems style vs) = .ok vs := by
  induction vs generalizing i with
  | nil => rfl
  | cons v vs ih =>
    rw [Node.ofItems, items, h v List.mem_cons_self, ih fun w hw => h w (List.mem_cons_of_mem _ hw)]
    rfl

/-- The fields come after those before them, so each goes to the end. -/
theorem entries_ofFields (path expected : String) (before : Fields)
    (hs : Table.Sorted (before ++ es))
    (h : ∀ k v, (k, v) ∈ es → ∀ path, value path depth (Node.ofJson style v) = .ok v) :
    entries path expected before depth (Node.ofFields style es) = .ok (before ++ es) := by
  induction es generalizing before expected with
  | nil =>
    rw [Node.ofFields, entries, List.append_nil]
  | cons e es ih =>
    obtain ⟨k, v⟩ := e
    have hlast : Table.insert k v before = before ++ [(k, v)] :=
      Table.insert_last fun e he => (List.pairwise_append.1 hs).2.2 e he (k, v) List.mem_cons_self
    have hs' : Table.Sorted ((before ++ [(k, v)]) ++ es) := by rwa [List.append_assoc]
    rw [Node.ofFields, entries, h k v List.mem_cons_self]
    change entries path "a string" (Table.insert k v before) depth (Node.ofFields style es) = _
    rw [hlast, ih "a string" _ hs' fun l w hw => h l w (List.mem_cons_of_mem _ hw),
      List.append_assoc]
    rfl

/-- **A value without doubles** is that of its node. -/
theorem value_ofJson (hs : Faithful style) (h : v.Held depth) (hv : v.isIntegral = true)
    (path : String) : value path depth (Node.ofJson style v) = .ok v := by
  induction h generalizing path with
  | null => rfl
  | bool b => cases b <;> rfl
  | @int _ i h =>
    have hresolve : Scalar.resolve ((word? (.int i)).getD "") .plain none = .ok (.int i) :=
      congrArg Except.ok (ofPlain_int h)
    rw [Node.ofJson, value, hresolve]
    · rfl
    all_goals nofun
  | double x => cases hv
  | str s =>
    rw [Node.ofJson, value, resolve_text hs]
    rfl
  | arr h ih =>
    rw [Json.isIntegral, Json.areIntegral_iff] at hv
    rw [Node.ofJson, value, items_ofItems fun w hw path => ih w hw (hv w hw) path]
    rfl
  | obj hsorted h ih =>
    rw [Json.isIntegral, Json.haveIntegral_iff] at hv
    rw [Node.ofJson, value, entries_ofFields path "a string key" [] hsorted fun k w hw path =>
      ih k w hw (hv k w hw) path]
    rfl

/-! ## What is decoded -/

theorem unsigned?_bounds {bound : Nat} {cs : List Char} {i : Int}
    (h : Scalar.unsigned? bound cs = some i) : 0 ≤ i ∧ i < bound := by
  unfold Scalar.unsigned? at h
  extract_lets bounded body plain at h
  have hbounded {n : Option Nat} (h : bounded n = some i) : 0 ≤ i ∧ i < bound := by
    obtain ⟨n, -, hn⟩ := Option.bind_eq_some_iff.1 h
    obtain ⟨hlt, heq⟩ := Option.ite_none_right_eq_some.1 hn
    cases heq
    omega
  have hplain (h : plain = some i) : 0 ≤ i ∧ i < bound :=
    hbounded (Option.ite_none_left_eq_some.1 h).2
  split at h
  · rcases Option.or_eq_some_iff.1 (Option.ite_none_left_eq_some.1 h).2 with h | ⟨-, h⟩
    · exact hbounded h
    · exact hplain h
  · exact hplain h

theorem negative?_bounds {bound : Nat} {cs : List Char} {i : Int}
    (h : Scalar.negative? bound cs = some i) : -(bound : Int) ≤ i ∧ i < bound := by
  unfold Scalar.negative? at h
  extract_lets bounded plain at h
  have hbounded {j : Option Int} (h : bounded j = some i) : -(bound : Int) ≤ i ∧ i < bound := by
    obtain ⟨j, -, hj⟩ := Option.bind_eq_some_iff.1 h
    obtain ⟨hin, heq⟩ := Option.ite_none_right_eq_some.1 hj
    cases heq
    simpa using hin
  have hplain (h : plain = some i) : -(bound : Int) ≤ i ∧ i < bound :=
    hbounded (Option.ite_none_left_eq_some.1 h).2
  split at h
  · split at h
    · rcases Option.or_eq_some_iff.1 h with h | ⟨-, h⟩
      · exact hbounded h
      · exact hplain h
    · exact hplain h
  · exact hplain h

theorem integer?_bounds {cs : List Char} {i : Int} (h : Scalar.integer? cs = some (.int i)) :
    -(2 ^ 63) ≤ i ∧ i < 2 ^ 64 := by
  rw [Scalar.integer?] at h
  rcases Option.or_eq_some_iff.1 h with h | ⟨-, h⟩
  · obtain ⟨j, hj, heq⟩ := Option.map_eq_some_iff.1 h
    cases heq
    have hbounds : 0 ≤ i ∧ i < ((2 ^ 64 : Nat) : Int) := unsigned?_bounds hj
    omega
  · rcases Option.or_eq_some_iff.1 h with h | ⟨-, h⟩
    · obtain ⟨j, hj, heq⟩ := Option.map_eq_some_iff.1 h
      cases heq
      have hbounds : -((2 ^ 63 : Nat) : Int) ≤ i ∧ i < ((2 ^ 63 : Nat) : Int) := negative?_bounds hj
      omega
    · rcases Option.or_eq_some_iff.1 h with h | ⟨-, h⟩
      · obtain ⟨j, -, heq⟩ := Option.map_eq_some_iff.1 h
        cases heq
      · obtain ⟨j, -, heq⟩ := Option.map_eq_some_iff.1 h
        cases heq

theorem ofPlain_bounds {i : Int} (h : Scalar.ofPlain s = .int i) : -(2 ^ 63) ≤ i ∧ i < 2 ^ 64 := by
  unfold Scalar.ofPlain at h
  split at h
  · cases h
  · split at h
    · cases h
    · split at h
      · rename_i x hx
        exact integer?_bounds (h ▸ hx)
      · split at h
        · cases h
        · split at h <;> cases h

theorem resolve_bounds {u : Style} {t : Option String} {i : Int}
    (h : Scalar.resolve s u t = .ok (.int i)) : -(2 ^ 63) ≤ i ∧ i < 2 ^ 64 := by
  unfold Scalar.resolve at h
  extract_lets plain expected at h
  have hplain (h : plain = .int i) : -(2 ^ 63) ≤ i ∧ i < 2 ^ 64 := by
    cases u with
    | plain => exact ofPlain_bounds h
    | _ => exact absurd h nofun
  split at h
  · exact hplain (Except.ok.inj h)
  · split at h
    · split at h <;> cases h
    · split at h
      · split at h
        · rename_i x hx
          exact integer?_bounds (Except.ok.inj h ▸ hx)
        · cases h
      · split at h
        · split at h <;> cases h
        · split at h
          · split at h <;> cases h
          · split at h
            · exact hplain (Except.ok.inj h)
            · cases h

mutual
/-- **What a value decodes to** is held at its depth. -/
theorem held_of_value {path : String} : ∀ {depth : Nat} {n : Node} {v : Json},
    value path depth n = .ok v → v.Held depth
  | depth, .scalar s u t, v, h => by
    rw [value] at h
    split at h
    · cases h
    · split at h
      all_goals cases h
      · exact .null
      · exact .bool _
      · exact .int (resolve_bounds ‹_›)
      · split
        · exact .null
        · exact .double _
      · exact .str _
  | depth, .alias n, v, h => held_of_value (n := n) (by rwa [value] at h)
  | depth, .cycle, v, h => by cases h
  | 0, .sequence xs t, v, h => by cases h
  | 0, .mapping es t, v, h => by cases h
  | depth + 1, .sequence xs t, v, h => by
    rw [value] at h
    split at h
    · cases h
    · obtain ⟨vs, hvs, rfl⟩ := map_eq_ok.1 h
      exact .arr (held_of_items hvs)
  | depth + 1, .mapping es t, v, h => by
    rw [value] at h
    split at h
    · cases h
    · obtain ⟨fs, hfs, rfl⟩ := map_eq_ok.1 h
      obtain ⟨hs, hheld⟩ := held_of_entries hfs Table.sorted_nil nofun
      exact .obj hs hheld

theorem held_of_items {path : String} : ∀ {i depth : Nat} {ns : List Node} {vs : List Json},
    items path i depth ns = .ok vs → ∀ v ∈ vs, v.Held depth
  | i, depth, [], vs, h => by cases h; nofun
  | i, depth, n :: ns, vs, h => by
    obtain ⟨v, hv, h⟩ := bind_eq_ok.1 h
    obtain ⟨ws, hws, h⟩ := bind_eq_ok.1 h
    cases h
    exact List.forall_mem_cons.2 ⟨held_of_value hv, held_of_items hws⟩

theorem held_of_entries {path : String} : ∀ {expected : String} {before fs : Fields} {depth : Nat}
    {ns : List (Node × Node)}, entries path expected before depth ns = .ok fs →
      Table.Sorted before → (∀ k v, (k, v) ∈ before → v.Held depth) →
      Table.Sorted fs ∧ ∀ k v, (k, v) ∈ fs → v.Held depth
  | expected, before, fs, depth, [], h, hs, hb => by cases h; exact ⟨hs, hb⟩
  | expected, before, fs, depth, (k, n) :: ns, h, hs, hb => by
    obtain ⟨key, -, h⟩ := bind_eq_ok.1 h
    obtain ⟨v, hv, h⟩ := bind_eq_ok.1 h
    refine held_of_entries h hs.insert fun l w hw => ?_
    rcases Table.mem_insert hw with heq | hw
    · cases heq
      exact held_of_value hv
    · exact hb l w hw
end

/-! ## Parts of records -/

section

variable {α β : Type} {d : NodeDecoder α} {a : α} {path name : String} {n : Node}

/-- At this depth, the node of a value is decoded as `a`. -/
def Takes (style : String → Style) (depth : Nat) (d : NodeDecoder α) (v : Json) (a : α) : Prop :=
  ∀ path, d path depth (Node.ofJson style v) = .ok a

theorem takes_text {expected : String} : Takes style depth (text expected) (.str s) s :=
  fun _ => rfl

/-- The node of a number is its word. -/
theorem ofJson_ofNat (style : String → Style) (n : Nat) :
    Node.ofJson style (.ofNat n) = .scalar (toString (n : Int)) .plain none := rfl

theorem takes_unsigned {n : Nat} (h : n < 2 ^ 64) : Takes style depth unsigned (.ofNat n) n := by
  intro path
  have hn : Scalar.unsigned? (Nat.pow 2 64) (toString (n : Int)).toList = some (n : Int) := by
    rw [toList_natCast]
    exact unsigned?_digits h
  have htarget : target (.scalar (toString (n : Int)) .plain none) =
      .scalar (toString (n : Int)) .plain none := rfl
  rw [ofJson_ofNat, unsigned, htarget]
  dsimp only
  rw [hn]
  rfl

@[simp] theorem target_ofJson : target (Node.ofJson style v) = Node.ofJson style v := by
  cases v <;> rfl

/-- What stands for a value is there. -/
def IsThere (style : String → Style) (v : Json) : Prop :=
  ∀ path, isMissing path (Node.ofJson style v) = .ok false

theorem isMissing_plain (h : Scalar.ofPlain s ≠ .null) :
    isMissing path (.scalar s .plain none) = .ok false := by
  have hnull : (s.isEmpty || Scalar.isNull s) = false := by
    rw [← Bool.not_eq_true]
    exact fun hs => h (if_pos hs)
  exact congrArg Except.ok hnull

theorem isThere_str (hs : Faithful style) : IsThere style (.str s) := by
  intro path
  rw [Node.ofJson]
  cases hstyle : style s with
  | plain => exact isMissing_plain (by rw [hs s hstyle]; nofun)
  | _ => rfl

theorem isThere_ofNat {n : Nat} (h : n < 2 ^ 64) : IsThere style (.ofNat n) := by
  intro path
  have hint : Scalar.ofPlain (toString (n : Int)) = .int n := ofPlain_int (by omega)
  rw [ofJson_ofNat]
  exact isMissing_plain (hint ▸ Scalar.noConfusion)

theorem isThere_arr : IsThere style (.arr vs) := fun _ => rfl

theorem isThere_obj : IsThere style (.obj es) := fun _ => rfl

theorem Takes.optional (h : Takes style depth d v a) (hv : IsThere style v) :
    Takes style depth (optional d) v (some a) := by
  intro path
  rw [NodeDecoder.optional, target_ofJson, hv path]
  change (d path depth (Node.ofJson style v) >>= fun a => .ok (some a)) = _
  rw [h path]
  rfl

theorem takes_object (hs : Faithful style) (h : Json.Held (depth + 1) (.obj es))
    (hv : Json.isIntegral (.obj es) = true) : Takes style (depth + 1) object (.obj es) es := by
  intro path
  rw [Json.isIntegral, Json.haveIntegral_iff] at hv
  cases h with
  | obj hsorted h =>
    rw [Node.ofJson]
    exact entries_ofFields path "a string" [] hsorted fun k w hw path =>
      value_ofJson hs (h k w hw) (hv k w hw) path

theorem takes_list {write : α → Json} {xs : List α}
    (h : ∀ x ∈ xs, Takes style depth d (write x) x) :
    Takes style (depth + 1) (list d) (.arr (xs.map write)) xs := by
  intro path
  rw [Node.ofJson]
  have hitems : ∀ (xs : List α) (i : Nat), (∀ x ∈ xs, Takes style depth d (write x) x) →
      ((Node.ofItems style (xs.map write)).zipIdx i).mapM
        (fun x => d (itemPath path x.2) depth x.1) = .ok xs := by
    intro xs
    induction xs with
    | nil => exact fun _ _ => rfl
    | cons x xs ih =>
      intro i hxs
      rw [List.map_cons, Node.ofItems, List.zipIdx_cons, List.mapM_cons,
        ih (i + 1) fun y hy => hxs y (List.mem_cons_of_mem _ hy)]
      change (d (itemPath path i) depth (Node.ofJson style (write x)) >>= fun y =>
        .ok (y :: xs)) = _
      rw [hxs x List.mem_cons_self]
      rfl
  exact hitems xs 0 h

/-! ## Records -/

/-- What is known of a record that is made of an object. -/
def recordOf (style : String → Style) (path : String) (depth : Nat) (es : Fields) : Record :=
  ⟨depth, (es.map fun e => (e.1, fieldPath path e.1, Node.ofJson style e.2)).reverse⟩

theorem Takes.check {required : Bool} (h : Takes style depth d v a) :
    Takes style depth (field name required d).check v () := by
  intro path
  change (d path depth (Node.ofJson style v)).map _ = _
  rw [h path]
  rfl

theorem known_ofFields {fields : List Field} {before : List (String × String × Node)}
    (hkeys : (es.map (·.1)).Nodup) (hbefore : ∀ e ∈ before, e.1 ∉ es.map (·.1))
    (hchecks : ∀ k v, (k, v) ∈ es → ∃ f, fields.find? (·.name == k) = some f ∧
      Takes style depth f.check v ()) :
    known fields path depth before (Node.ofFields style es) =
      .ok ((recordOf style path depth es).fields ++ before) := by
  induction es generalizing before with
  | nil => rfl
  | cons e es ih =>
    obtain ⟨k, v⟩ := e
    obtain ⟨f, hf, hcheck⟩ := hchecks k v List.mem_cons_self
    obtain ⟨hk, hkeys⟩ := List.nodup_cons.1 hkeys
    have hnew : (before.any (·.1 == k)) = false := by
      rw [List.any_eq_false]
      intro e he hek
      exact hbefore e he (by simp [beq_iff_eq.1 hek])
    have hlater : ∀ e ∈ (k, fieldPath path k, Node.ofJson style v) :: before, e.1 ∉ es.map (·.1) :=
      List.forall_mem_cons.2 ⟨hk, fun e he hmem => hbefore e he (List.mem_cons_of_mem _ hmem)⟩
    have hstep : known fields path depth before (Node.ofFields style ((k, v) :: es)) =
        known fields path depth ((k, fieldPath path k, Node.ofJson style v) :: before)
          (Node.ofFields style es) := by
      rw [Node.ofFields, known]
      have hkey : text "field identifier" path depth (.scalar k (style k) none) = .ok k := rfl
      rw [hkey]
      simp only [bind, Except.bind]
      rw [hf]
      dsimp only
      rw [hnew]
      change (f.check (fieldPath path k) depth (Node.ofJson style v) >>= _) = _
      rw [hcheck]
      rfl
    rw [hstep, ih hkeys hlater fun l w hw => hchecks l w (List.mem_cons_of_mem _ hw)]
    simp [recordOf]

/-- **A record** of an object that has its required fields, and no others than pass their checks. -/
theorem record_ofJson {kind : String} {fields : List Field} (hkeys : (es.map (·.1)).Nodup)
    (hchecks : ∀ k v, (k, v) ∈ es → ∃ f, fields.find? (·.name == k) = some f ∧
      Takes style depth f.check v ())
    (hrequired : ∀ f ∈ fields, f.required = true → f.name ∈ es.map (·.1)) :
    record kind fields path (depth + 1) (Node.ofJson style (.obj es)) =
      .ok (recordOf style path depth es) := by
  have hknown : known fields path depth [] (Node.ofFields style es) =
      .ok (recordOf style path depth es).fields := by
    rw [known_ofFields hkeys (List.forall_mem_nil _) hchecks, List.append_nil]
  have hcomplete : fields.find? (fun f => f.required &&
      !(recordOf style path depth es).fields.any (·.1 == f.name)) = none := by
    rw [List.find?_eq_none]
    intro f hf hmissing
    rw [Bool.and_eq_true, Bool.not_eq_true', List.any_eq_false] at hmissing
    obtain ⟨e, he, hname⟩ := List.mem_map.1 (hrequired f hf hmissing.1)
    refine hmissing.2 (e.1, fieldPath path e.1, Node.ofJson style e.2) ?_ (by simp [hname])
    exact List.mem_reverse.2 (List.mem_map.2 ⟨e, he, rfl⟩)
  rw [Node.ofJson]
  refine bind_eq_ok.2 ⟨_, hknown, ?_⟩
  dsimp only
  rw [hcomplete]
  rfl

theorem find?_recordOf (hkeys : (es.map (·.1)).Nodup) :
    (recordOf style path depth es).fields.find? (·.1 == name) =
      (Table.get? name es).map fun v => (name, fieldPath path name, Node.ofJson style v) := by
  induction es with
  | nil => rfl
  | cons e es ih =>
    obtain ⟨k, v⟩ := e
    obtain ⟨hk, hkeys⟩ := List.nodup_cons.1 hkeys
    have hfields : (recordOf style path depth ((k, v) :: es)).fields =
        (recordOf style path depth es).fields ++ [(k, fieldPath path k, Node.ofJson style v)] := by
      simp [recordOf]
    rw [hfields, List.find?_append, ih hkeys, Table.get?]
    by_cases hname : k = name
    · subst hname
      have hnone : Table.get? k es = none := by
        rw [← Option.not_isSome_iff_eq_none, ← Table.mem_keys_iff]
        exact hk
      simp [hnone]
    · simp [hname]

/-- A field that is there. -/
theorem getD_recordOf {default : α} (hkeys : (es.map (·.1)).Nodup)
    (hname : Table.get? name es = some v) (h : Takes style depth d v a) :
    (recordOf style path depth es).getD name d default = .ok a := by
  rw [Record.getD, Record.get?, find?_recordOf hkeys, hname]
  change ((d (fieldPath path name) depth (Node.ofJson style v)).map some >>= fun o =>
    .ok (o.getD default)) = _
  rw [h]
  rfl

/-- A field that may be left out. -/
theorem getD_optional {write : α → Json} {o : Option α} (hkeys : (es.map (·.1)).Nodup)
    (hname : Table.get? name es = o.map write)
    (h : ∀ a ∈ o, Takes style depth d (write a) a ∧ IsThere style (write a)) :
    (recordOf style path depth es).getD name (optional d) none = .ok o := by
  cases o with
  | none =>
    rw [Record.getD, Record.get?, find?_recordOf hkeys, hname]
    rfl
  | some a =>
    obtain ⟨htakes, hthere⟩ := h a rfl
    exact getD_recordOf hkeys hname (htakes.optional hthere)

/-! ## What parts and records are made of -/

theorem wrongType_ne_ok {expected : String} : ∀ n, wrongType path expected n ≠ .ok a
  | .scalar s u t => by
    rw [wrongType]
    split <;> nofun
  | .sequence _ _ => nofun
  | .mapping _ _ => nofun
  | .alias n => by
    rw [wrongType]
    exact wrongType_ne_ok n
  | .cycle => nofun

theorem unsigned_lt {i : Nat} (h : unsigned path depth n = .ok i) : i < 2 ^ 64 := by
  unfold unsigned at h
  split at h
  · extract_lets direct at h
    split at h
    · rename_i j hj
      cases h
      have hbounds := unsigned?_bounds hj
      have hpow : ((Nat.pow 2 64 : Nat) : Int) = 2 ^ 64 := rfl
      rw [hpow] at hbounds
      omega
    · exact absurd h (wrongType_ne_ok _)
  · exact absurd h (wrongType_ne_ok _)

theorem held_of_object (h : object path (depth + 1) n = .ok es) :
    Json.Held (depth + 1) (.obj es) := by
  unfold object at h
  split at h
  · cases h
  · rename_i heq
    cases heq
    obtain ⟨hs, hheld⟩ := held_of_entries h Table.sorted_nil nofun
    exact .obj hs hheld
  · split at h
    · cases h
      exact .obj Table.sorted_nil nofun
    · exact absurd h (wrongType_ne_ok _)

theorem of_optional (h : optional d path depth n = .ok (some a)) :
    d path depth (target n) = .ok a := by
  obtain ⟨missing, -, h⟩ := bind_eq_ok.1 h
  cases missing with
  | true => cases h
  | false =>
    obtain ⟨b, hb, h⟩ := bind_eq_ok.1 h
    cases h
    exact hb

theorem of_list {as : List α} (h : list d path depth n = .ok as) :
    ∀ a ∈ as, ∃ path below m, depth = below + 1 ∧ d path below m = .ok a := by
  unfold list at h
  split at h
  · cases h
  · intro a ha
    obtain ⟨⟨m, i⟩, -, hm⟩ := exists_of_mapM_eq_ok h a ha
    exact ⟨_, _, m, rfl, hm⟩
  · split at h
    · cases h
      nofun
    · exact absurd h (wrongType_ne_ok _)

theorem of_record {kind : String} {fields : List Field} {r : Record}
    (h : record kind fields path depth n = .ok r) : r.fields = [] ∨ depth = r.depth + 1 := by
  unfold record at h
  extract_lets complete at h
  have hcomplete {depth : Nat} {found : List (String × String × Node)}
      (h : complete depth found = .ok r) : r = ⟨depth, found⟩ := by
    unfold complete at h
    split at h
    · cases h
    · exact (Except.ok.inj h).symm
  split at h
  · cases h
  · obtain ⟨found, -, h⟩ := bind_eq_ok.1 h
    exact .inr (by rw [hcomplete h])
  · split at h
    · exact .inl (by rw [hcomplete h])
    · exact absurd h (wrongType_ne_ok _)

/-- A field of a record is a default, or decoded in the depth below. -/
theorem of_getD {kind : String} {fields : List Field} {r : Record} {default : α}
    (hr : record kind fields path depth n = .ok r) (h : r.getD name d default = .ok a) :
    a = default ∨ ∃ path below m, depth = below + 1 ∧ d path below m = .ok a := by
  obtain ⟨o, ho, h⟩ := bind_eq_ok.1 h
  cases h
  unfold Record.get? at ho
  split at ho
  · rename_i path' m hfind
    obtain ⟨b, hb, rfl⟩ := map_eq_ok.1 ho
    rcases of_record hr with hnil | hdepth
    · rw [hnil] at hfind
      cases hfind
    · exact .inr ⟨path', r.depth, m, hdepth, hb⟩
  · cases ho
    exact .inl rfl

end

end NodeDecoder
end Runbook.Yaml
