import Runbook.Shell.Brace
import Runbook.Shell.Builtin
import Runbook.Shell.Glob
import Runbook.Shell.Piece

/-!
# Running commands

Words are expanded to fields (`Run.fieldsOf`) and commands are run on the session (`Run.exec`). The
bound of the recursion also bounds the passes of a loop: a shell that uses it up is taken never to
end.
-/

namespace Runbook.Shell.Run

mutual

/-- The pieces that a part of a word stands for. -/
def piece : Nat → Bool → Part → Run (List Piece)
  | 0, _, _ => diverge
  | fuel + 1, inQuotes, p => do
    let made (s : String) : Piece := if inQuotes then .quoted s else .value s
    match p with
    | .text s => return [if inQuotes then .quoted s else .literal s]
    | .quoted [.parameter "@"] => do
      let s ← get
      return (s.arguments.map Piece.quoted).intersperse (.value " ")
    | .quoted ps => return [.quoted (Piece.joined (← pieces fuel true ps))]
    | .parameter n => return [made (← parameter n)]
    | .length n => return [made (toString (← parameter n).length)]
    | .trimmed n fromEnd longest w => do
      let v ← parameter n
      let pattern ← patternOf fuel w
      return [made (String.ofList (Glob.trimmed fromEnd longest pattern.toList v.toList))]
    | .orElse n emptyToo kind w => do
      let v := (← get).value? n
      let present := v.any fun v => !(emptyToo && v.isEmpty)
      match kind with
      | .word =>
        if present then return [made (v.getD "")]
        else return (← pieces fuel inQuotes w).map Piece.splitting
      | .alternative =>
        if present then return (← pieces fuel inQuotes w).map Piece.splitting else return []
      | .assign => do
        if present then return [made (v.getD "")]
        let t := Piece.joined (← pieces fuel inQuotes w)
        modify fun s => s.assign n t
        return [made t]
      | .refuse => do
        if present then return [made (v.getD "")]
        refuse n emptyToo (Piece.joined (← pieces fuel inQuotes w))
    | .output cs => do
      let out ← captured (execAll fuel cs)
      if out.isEndless then diverge
      let bytes := (out.bytes.filter (· != 0)).reverse.dropWhile (· == lineFeed)
      return [made (Text.Utf8.decodeLossy bytes.reverse)]
    | .arithmetic e => return [made (← arithmetic (Piece.joined (← pieces fuel true e)))]

/-- The pieces that parts of a word stand for. -/
def pieces : Nat → Bool → List Part → Run (List Piece)
  | 0, _, _ => diverge
  | _, _, [] => return []
  | fuel + 1, inQuotes, p :: ps => do
    let first ← piece fuel inQuotes p
    return first ++ (← pieces fuel inQuotes ps)

/-- The text of a word that is not split. -/
def textOf : Nat → Word → Run String
  | 0, _ => diverge
  | fuel + 1, w => do return Piece.joined (← pieces fuel false w)

/-- The fields of words. -/
def fieldsOf : Nat → List Word → Run (List String)
  | 0, _ => diverge
  | _, [] => return []
  | fuel + 1, w :: ws => do
    let s ← get
    let first ← match w, s.dialect with
      | [.text t], .bash => pure (Brace.expand t)
      | _, _ => Piece.fields <$> pieces fuel false w
    let home (t : String) : String :=
      if t == "~" || t.startsWith "~/" then
        (s.value? "HOME").getD "~" ++ String.ofList (t.toList.drop 1)
      else t
    let first := match w with
      | .text _ :: _ => first.map home
      | _ => first
    return first ++ (← fieldsOf fuel ws)

/-- Applies redirections in order; tells whether all of them worked. -/
def redirectAll : Nat → List Redirection → Run Bool
  | 0, _ => diverge
  | _, [] => return true
  | fuel + 1, r :: rs => do
    if ← redirect r (← textOf fuel r.word) then redirectAll fuel rs else return false

/-- Sets variables in order. -/
def assignAll : Nat → List (String × Word) → Run Unit
  | 0, _ => diverge
  | _, [] => return
  | fuel + 1, (n, w) :: rest => do
    let v ← textOf fuel w
    modify fun s => s.assign n v
    assignAll fuel rest

/-- Runs a simple command. -/
def invoke : Nat → List String → Run Unit
  | 0, _ => diverge
  | _, [] => return
  | fuel + 1, name :: args => do
    match Table.get? name (← get).functions, special? name args with
    | some body, _ => calling args (exec fuel body)
    | none, some r => r
    | none, none =>
      match name with
      | "command" =>
        if args.head? == some "-v" then
          match args.drop 1 with
          | n :: _ =>
            match Program.internal.lookup n, Program.external.lookup n with
            | some _, _ =>
              modify fun s => { s.write s.output (.ofText (n ++ "\n")) with status := 0 }
            | none, some _ =>
              modify fun s =>
                { s.write s.output (.ofText ("/usr/bin/" ++ n ++ "\n")) with status := 0 }
            | none, none => status 1
          | [] => status 0
        else invoke fuel args
      | "eval" => source fuel ⟨(" ".intercalate args).toList, 1⟩
      | "exec" | "env" =>
        if name == "env" && args.isEmpty then plain name args
        else do
          invoke fuel args
          if name == "exec" && !args.isEmpty then throw .exit
      | _ =>
        match Dialect.ofName? (Path.base name), args with
        | some d, "-c" :: text :: rest => do
          let s ← get
          modify (child d name rest)
          let run : Run Unit := fun t =>
            match subshell (source fuel ⟨text.toList, 1⟩) t with
            | .error _ u => .ok () { u with status := 137 }
            | ok => ok
          run
          modify s.keep
        | _, _ => plain name args

/-- Runs a command. -/
def exec : Nat → Command → Run Unit
  | 0, _ => diverge
  | fuel + 1, c => do
    if (← get).elapsed ≥ forever then throw .exit
    match c with
    | .simple line as ws rs => do
      modify fun s => { s with line }
      let before ← get
      let fs ← fieldsOf fuel ws
      if fs.isEmpty then do
        if ← redirectAll fuel rs then do
          if ws.isEmpty then status 0
          assignAll fuel as
      else do
        if ← redirectAll fuel rs then do
          assignAll fuel as
          modify fun s => as.foldl (fun s a => s.publish a.1) s
          invoke fuel fs
          modify fun s =>
            as.foldl (fun s a =>
              { s with
                vars := match Table.get? a.1 before.vars with
                  | some v => Table.insert a.1 v s.vars
                  | none => Table.erase a.1 s.vars }) s
      if fs.head? != some "exec" then
        modify fun s => { s with
          input := if rs.isEmpty then s.input else before.input
          output := before.output
          errors := before.errors }
      checked
    | .pipeline cs => do
      let s ← get
      let statuses ← stages fuel s.elapsed cs
      let last := statuses.getLast?.getD 0
      let failed := (statuses.filter (· != 0)).getLast?.getD 0
      modify fun t => { t with
        input := s.input
        status := if s.options.contains "pipefail" then failed else last }
      checked
    | .negated c => do
      guarded (exec fuel c)
      modify fun s => { s with status := if s.status == 0 then 1 else 0 }
    | .both l r => do
      guarded (exec fuel l)
      if (← get).status == 0 then exec fuel r
    | .either l r => do
      guarded (exec fuel l)
      if (← get).status != 0 then exec fuel r
    | .sequence cs => execAll fuel cs
    | .subshell cs => do
      subshell (execAll fuel cs)
      checked
    | .conditional condition body otherwise => do
      guarded (execAll fuel condition)
      if (← get).status == 0 then execAll fuel body
      else do
        status 0
        execAll fuel otherwise
    | .loop untilTrue condition body => do
      let goesOn : Run Bool := do
        guarded (execAll fuel condition)
        return ((← get).status == 0) != untilTrue
      status 0
      looping (repeated goesOn (execAll fuel body) fuel)
    | .forEach name ws body => do
      let fs ← fieldsOf fuel ws
      status 0
      looping <| overItems (fun v => do
        modify fun s => s.assign name v
        execAll fuel body) fs
    | .choose w cases => do
      let text ← textOf fuel w
      status 0
      choose fuel text cases
    | .define name body =>
      modify fun s => { s with functions := Table.insert name body s.functions, status := 0 }
    | .redirected c rs => do
      let before ← get
      if ← redirectAll fuel rs then exec fuel c
      modify fun s => { s with
        input := before.input
        output := before.output
        errors := before.errors }

/-- Runs the commands of the first case whose patterns a text matches. -/
def choose : Nat → String → List (List Word × List Command) → Run Unit
  | 0, _, _ => diverge
  | _, _, [] => return
  | fuel + 1, text, (ps, cs) :: rest => do
    if ← matchesAny fuel text ps then execAll fuel cs else choose fuel text rest

/-- The pattern that a word stands for; what is quoted in it stands for itself. -/
def patternOf : Nat → Word → Run String
  | 0, _ => diverge
  | fuel + 1, w => do
    return String.join ((← pieces fuel false w).map fun
      | .quoted s => Glob.literal s
      | q => q.text)

/-- Whether a text matches one of some patterns. -/
def matchesAny : Nat → String → List Word → Run Bool
  | 0, _, _ => diverge
  | _, _, [] => return false
  | fuel + 1, text, p :: rest => do
    let pattern ← patternOf fuel p
    if Glob.accepts pattern.toList text.toList then return true else matchesAny fuel text rest

/-- Runs commands in order. -/
def execAll : Nat → List Command → Run Unit
  | 0, _ => diverge
  | _, [] => return
  | fuel + 1, c :: cs => do
    exec fuel c
    execAll fuel cs

/-- Runs the stages of a pipeline that begin at a moment, each with the output of the one before as
its input, and collects their statuses. -/
def stages : Nat → Nat → List Command → Run (List Nat)
  | 0, _, _ => diverge
  | _, _, [] => return []
  | fuel + 1, start, [c] => do
    let latest := (← get).elapsed
    modify fun s => { s with elapsed := start }
    subshell (exec fuel c)
    modify fun s => { s with elapsed := max latest s.elapsed }
    return [(← get).status]
  | fuel + 1, start, c :: cs => do
    let latest := (← get).elapsed
    modify fun s => { s with elapsed := start }
    let out ← captured (exec fuel c)
    let first := (← get).status
    modify fun s => { s with elapsed := max latest s.elapsed, input := out }
    return first :: (← stages fuel start cs)

/-- Runs the commands of a text, line by line. -/
def source : Nat → Source → Run Unit
  | 0, _ => diverge
  | fuel + 1, src => do
    match src.nextLine with
    | .ok none => return
    | .ok (some (cs, rest)) => do
      execAll fuel cs
      source fuel rest
    | .error f => do
      let s ← get
      let lines := (Text.splitLineFeeds src.chars).map String.ofList
      let lines := if lines.getLast? == some "" && lines.length > 1 then lines.dropLast else lines
      let lines := List.replicate (src.line - 1) "" ++ lines
      set (s.write s.errors (.ofText (s.dialect.refusal s.name lines f)))
      status 2
      throw .exit

end

/-- Runs the commands of a text as a whole shell: to its end, and then what was asked for at it. -/
def shell (fuel : Nat) (src : Source) : Run Unit := fun s =>
  let last (t : Session) : EStateM.Result Stop Session Unit :=
    match t.farewell with
    | none => .ok () t
    | some c =>
      match source fuel ⟨c.toList, 1⟩ { t with farewell := none } with
      | .ok _ u => .ok () { u with status := t.status }
      | r => r
  match source fuel src s with
  | .ok _ t => last t
  | .error .killed t => .error .killed t
  | .error _ t => last t

end Runbook.Shell.Run
