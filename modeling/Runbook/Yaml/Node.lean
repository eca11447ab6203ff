import Runbook.Yaml.Token

/-!
# Nodes of documents

The tokens of a document make up a tree of scalars, sequences and mappings. `Node.ofText` reads a
text that holds one document, or none. An alias stands for the node that its anchor marks; one
within the node it marks has no finite meaning and is kept as `cycle`.
-/

namespace Runbook.Yaml

/-- A node of a document. -/
inductive Node where
  | scalar (text : String) (style : Style) (tag : Option String)
  | sequence (items : List Node) (tag : Option String)
  | mapping (entries : List (Node × Node)) (tag : Option String)
  | alias (target : Node)
  | cycle
  deriving Inhabited

namespace Node

/-- The node of a place where nothing is written. -/
def empty : Node := .scalar "" .plain none

end Node

/-- What is known while nodes are read: the prefixes of tags and the nodes of anchors, the latest
first. The node of an anchor that is still being read is missing. -/
structure Known where
  handles : List (List Char × List Char) := []
  anchors : List (List Char × Option Node) := []

namespace Known

/-- The prefixes that need no directive. -/
def defaultHandles : List (List Char × List Char) :=
  [(['!'], ['!']), (['!', '!'], "tag:yaml.org,2002:".toList)]

/-- The full name of a tag. -/
def tagName (k : Known) (handle suffix : List Char) : Except Fault String :=
  if handle.isEmpty then .ok (String.ofList suffix)
  else
    match (k.handles ++ defaultHandles).find? (·.1 == handle) with
    | some (_, start) => .ok (String.ofList (start ++ suffix))
    | none => .error .tag

/-- The node that an alias stands for. -/
def resolve (k : Known) (name : List Char) : Except Fault Node :=
  match k.anchors.find? (·.1 == name) with
  | some (_, some n) => .ok (.alias n)
  | some (_, none) => .ok .cycle
  | none => .error .unknownAnchor

/-- Marks the node of an anchor as being read. -/
def begin_ (k : Known) : Option (List Char) → Known
  | some name => { k with anchors := (name, none) :: k.anchors }
  | none => k

/-- Fills in the node of the latest anchor of a name that is still being read. -/
def fill (name : List Char) (n : Node) : List (List Char × Option Node) →
    List (List Char × Option Node)
  | [] => []
  | (m, none) :: rest => if m == name then (m, some n) :: rest else (m, none) :: fill name n rest
  | e :: rest => e :: fill name n rest

/-- Gives an anchor its node. -/
def finish (k : Known) (anchor : Option (List Char)) (n : Node) : Known :=
  match anchor with
  | some name => { k with anchors := fill name n k.anchors }
  | none => k

end Known

/-- An anchor and a tag in front of a node, in either order. -/
def readProperties (ts : List Token) :
    (Option (List Char) × Option (List Char × List Char)) × List Token :=
  match ts with
  | .anchor a :: .tag h s :: ts => ((some a, some (h, s)), ts)
  | .tag h s :: .anchor a :: ts => ((some a, some (h, s)), ts)
  | .anchor a :: ts => ((some a, none), ts)
  | .tag h s :: ts => ((none, some (h, s)), ts)
  | ts => ((none, none), ts)


/-- The full name of a tag in front of a node; the mark without a name is none. -/
def tagOf (k : Known) : Option (List Char × List Char) → Except Fault (Option String)
  | none => .ok none
  | some (h, s) => do
    let name ← k.tagName h s
    return if name.isEmpty || name == "!" then none else some name

mutual
/-- A node. Block collections are allowed where `block` holds, and sequences without indentation
of their own where `indentless` holds. -/
def readNode : Nat → Bool → Bool → Known → List Token →
    Except Fault ((Node × Known) × List Token)
  | 0, _, _, _, _ => .error .misplaced
  | fuel + 1, block, indentless, k, ts =>
    match ts with
    | .alias name :: rest => do
      let n ← k.resolve name
      return ((n, k), rest)
    | ts => do
      let ((anchor, mark), rest) := readProperties ts
      let tag ← tagOf k mark
      let k := k.begin_ anchor
      let done (n : Node) (k : Known) (rest : List Token) :
          Except Fault ((Node × Known) × List Token) :=
        .ok ((n, k.finish anchor n), rest)
      match rest with
      | .scalar text style :: rest => done (.scalar text style tag) k rest
      | .openSequence :: rest => do
        let ((items, k), rest) ← readFlowItems fuel true [] k rest
        done (.sequence items tag) k rest
      | .openMapping :: rest => do
        let ((entries, k), rest) ← readFlowEntries fuel true [] k rest
        done (.mapping entries tag) k rest
      | .entry :: _ =>
        if indentless then do
          let ((items, k), rest) ← readItems fuel false [] k rest
          done (.sequence items tag) k rest
        else if anchor.isSome || mark.isSome then done (.scalar "" .plain tag) k rest
        else .error .misplaced
      | .blockSequence :: inner =>
        if block then do
          let ((items, k), rest) ← readItems fuel true [] k inner
          done (.sequence items tag) k rest
        else if anchor.isSome || mark.isSome then done (.scalar "" .plain tag) k rest
        else .error .misplaced
      | .blockMapping :: inner =>
        if block then do
          let ((entries, k), rest) ← readEntries fuel [] k inner
          done (.mapping entries tag) k rest
        else if anchor.isSome || mark.isSome then done (.scalar "" .plain tag) k rest
        else .error .misplaced
      | rest =>
        if anchor.isSome || mark.isSome then done (.scalar "" .plain tag) k rest
        else .error .misplaced

/-- The items of a block sequence; one with an indentation of its own ends with `blockEnd`. -/
def readItems : Nat → Bool → List Node → Known → List Token →
    Except Fault ((List Node × Known) × List Token)
  | 0, _, _, _, _ => .error .misplaced
  | fuel + 1, indented, acc, k, ts =>
    match ts with
    | .entry :: rest =>
      let nothing := match rest with
        | .entry :: _ => true
        | .blockEnd :: _ => true
        | .key :: _ => !indented
        | .value :: _ => !indented
        | _ => false
      if nothing then readItems fuel indented (.empty :: acc) k rest
      else do
        let ((n, k), rest) ← readNode fuel true false k rest
        readItems fuel indented (n :: acc) k rest
    | .blockEnd :: rest =>
      .ok ((acc.reverse, k), if indented then rest else .blockEnd :: rest)
    | rest => if indented then .error .misplaced else .ok ((acc.reverse, k), rest)

/-- The entries of a block mapping. -/
def readEntries : Nat → List (Node × Node) → Known → List Token →
    Except Fault ((List (Node × Node) × Known) × List Token)
  | 0, _, _, _ => .error .misplaced
  | fuel + 1, acc, k, ts =>
    match ts with
    | .blockEnd :: rest => .ok ((acc.reverse, k), rest)
    | .key :: rest => do
      let ((key, k), rest) ← readPart fuel k rest
      match rest with
      | .value :: rest => do
        let ((value, k), rest) ← readPart fuel k rest
        readEntries fuel ((key, value) :: acc) k rest
      | rest => readEntries fuel ((key, .empty) :: acc) k rest
    | _ => .error .misplaced

/-- A key or a value of a block mapping. -/
def readPart : Nat → Known → List Token → Except Fault ((Node × Known) × List Token)
  | 0, _, _ => .error .misplaced
  | fuel + 1, k, ts =>
    match ts with
    | .key :: _ => .ok ((.empty, k), ts)
    | .value :: _ => .ok ((.empty, k), ts)
    | .blockEnd :: _ => .ok ((.empty, k), ts)
    | ts => readNode fuel true true k ts

/-- The items of a sequence in brackets. An item may be a mapping of a single pair. -/
def readFlowItems : Nat → Bool → List Node → Known → List Token →
    Except Fault ((List Node × Known) × List Token)
  | 0, _, _, _, _ => .error .misplaced
  | fuel + 1, first, acc, k, ts =>
    match ts with
    | .closeSequence :: rest => .ok ((acc.reverse, k), rest)
    | ts => do
      let ts ← afterComma first ts
      match ts with
      | .closeSequence :: rest => .ok ((acc.reverse, k), rest)
      | .key :: rest => do
        let ((key, k), rest) ← readFlowPart fuel k rest
        let ((value, k), rest) ← readFlowValue fuel k rest
        readFlowItems fuel false (.mapping [(key, value)] none :: acc) k rest
      | ts => do
        let ((n, k), rest) ← readNode fuel false false k ts
        readFlowItems fuel false (n :: acc) k rest

/-- The entries of a mapping in braces. -/
def readFlowEntries : Nat → Bool → List (Node × Node) → Known → List Token →
    Except Fault ((List (Node × Node) × Known) × List Token)
  | 0, _, _, _, _ => .error .misplaced
  | fuel + 1, first, acc, k, ts =>
    match ts with
    | .closeMapping :: rest => .ok ((acc.reverse, k), rest)
    | ts => do
      let ts ← afterComma first ts
      match ts with
      | .closeMapping :: rest => .ok ((acc.reverse, k), rest)
      | .key :: rest => do
        let ((key, k), rest) ← readFlowPart fuel k rest
        let ((value, k), rest) ← readFlowValue fuel k rest
        readFlowEntries fuel false ((key, value) :: acc) k rest
      | ts => do
        let ((key, k), rest) ← readNode fuel false false k ts
        readFlowEntries fuel false ((key, .empty) :: acc) k rest

/-- The value of an entry of a collection in brackets, if its colon is there. -/
def readFlowValue : Nat → Known → List Token → Except Fault ((Node × Known) × List Token)
  | 0, _, _ => .error .misplaced
  | fuel + 1, k, ts =>
    match ts with
    | .value :: rest => readFlowPart fuel k rest
    | ts => .ok ((.empty, k), ts)

/-- A key or a value of a collection in brackets. -/
def readFlowPart : Nat → Known → List Token → Except Fault ((Node × Known) × List Token)
  | 0, _, _ => .error .misplaced
  | fuel + 1, k, ts =>
    match ts with
    | .value :: _ => .ok ((.empty, k), ts)
    | .comma :: _ => .ok ((.empty, k), ts)
    | .closeSequence :: _ => .ok ((.empty, k), ts)
    | .closeMapping :: _ => .ok ((.empty, k), ts)
    | ts => readNode fuel false false k ts

/-- The tokens of an item of a collection in brackets, after the comma that all items but the
first need. -/
def afterComma (first : Bool) (ts : List Token) : Except Fault (List Token) :=
  if first then .ok ts
  else match ts with
    | .comma :: rest => .ok rest
    | _ => .error .misplaced
end

/-- The directives in front of a document. -/
def readDirectives (versions : Nat) (k : Known) : List Token → Except Fault (Known × List Token)
  | .version major minor :: rest =>
    if versions > 0 || major != 1 || (minor != 1 && minor != 2) then .error .directive
    else readDirectives (versions + 1) k rest
  | .handle name start :: rest =>
    if k.handles.any (·.1 == name) then .error .directive
    else readDirectives versions { k with handles := (name, start) :: k.handles } rest
  | rest => .ok (k, rest)

/-- What may follow the only document of a text: marks of its end. -/
def readEnd : List Token → Except Fault Unit
  | .documentEnd :: rest => readEnd rest
  | [.finish] => .ok ()
  | _ => .error .manyDocuments

/-- The node of a document after its start mark. -/
def readDocument (k : Known) (ts : List Token) : Except Fault (Node × List Token) :=
  match ts with
  | .documentStart :: _ => .ok (.empty, ts)
  | .documentEnd :: _ => .ok (.empty, ts)
  | .finish :: _ => .ok (.empty, ts)
  | .version _ _ :: _ => .ok (.empty, ts)
  | .handle _ _ :: _ => .ok (.empty, ts)
  | ts => do
    let ((n, _), rest) ← readNode (4 * ts.length + 4) true false k ts
    return (n, rest)

/-- The node of the only document of a text, if the text holds one. -/
def Node.ofText (s : String) : Except Fault (Option Node) := do
  match ← Token.ofText s with
  | [.finish] => return none
  | ts => do
    let (k, rest) ← readDirectives 0 {} ts
    let (n, rest) ← match rest with
      | .documentStart :: rest => readDocument k rest
      | rest =>
        if rest.length < ts.length then throw .directive
        else do
          let ((n, _), rest) ← readNode (4 * rest.length + 4) true false k rest
          pure (n, rest)
    readEnd rest
    return some n

end Runbook.Yaml
