import RowScript.Yaml.Token

/-!
# Nodes

What a text says apart from its layout. The tokens of a text are read with the
collections that are still open, innermost first. Where a node may be left out,
an empty plain scalar stands for it.
-/

namespace RowScript.Yaml

inductive Node where
  /-- `plain` tells text without quotes. -/
  | scalar (text : String) (plain : Bool)
  | sequence (elements : List Node)
  | mapping (members : List (Node × Node))
  deriving Repr, Inhabited

namespace Node

def empty : Node := scalar "" true

end Node

/-- A collection that is open, and what the node that is being read is to it.
Elements and members are kept latest first. -/
inductive Frame where
  | blockElement (elements : List Node)
  /-- An element of a sequence that is not indented against its key. -/
  | bareElement (elements : List Node)
  | blockKey (members : List (Node × Node))
  | blockValue (members : List (Node × Node)) (key : Node)
  | flowElement (elements : List Node)
  /-- The key of a mapping that is written without its braces in a flow sequence. -/
  | pairKey (elements : List Node)
  | pairValue (elements : List Node) (key : Node)
  | flowKey (members : List (Node × Node))
  /-- A member of a flow mapping without a colon. -/
  | flowKeyAlone (members : List (Node × Node))
  | flowValue (members : List (Node × Node)) (key : Node)

def startsWithOneOf (set : List Token) : List Token → Bool
  | [] => false
  | t :: _ => set.contains t

mutual

/-- Reads a node. A sequence without an indentation of its own is `bare`. -/
def readNode (bare : Bool) (fs : List Frame) : List Token → Option (Node × List Token)
  | .scalar text plain :: ts => finish (.scalar text plain) fs ts
  | .blockSequence :: ts => blockElements [] fs ts
  | .blockMapping :: ts => blockMembers [] fs ts
  | .flowSequence :: ts => flowElements [] fs ts
  | .flowMapping :: ts => flowMembers [] fs ts
  | .entry :: ts => if bare then bareElement [] fs ts else none
  | _ => none
termination_by ts => (ts.length, 1)

/-- Hands a node that is complete to the innermost open collection. -/
def finish (v : Node) : List Frame → List Token → Option (Node × List Token)
  | [], ts => some (v, ts)
  | .blockElement vs :: fs, ts => blockElements (v :: vs) fs ts
  | .bareElement vs :: fs, ts => bareElements (v :: vs) fs ts
  | .blockKey ms :: fs, .value :: ts =>
    if startsWithOneOf [.key, .value, .blockEnd] ts then blockMembers ((v, .empty) :: ms) fs ts
    else readNode true (.blockValue ms v :: fs) ts
  | .blockKey ms :: fs, ts => blockMembers ((v, .empty) :: ms) fs ts
  | .blockValue ms key :: fs, ts => blockMembers ((key, v) :: ms) fs ts
  | .flowElement vs :: fs, ts => moreElements (v :: vs) fs ts
  | .pairKey vs :: fs, .value :: ts =>
    if startsWithOneOf [.flowEntry, .flowSequenceEnd] ts then
      moreElements (.mapping [(v, .empty)] :: vs) fs ts
    else readNode false (.pairValue vs v :: fs) ts
  | .pairKey vs :: fs, ts => moreElements (.mapping [(v, .empty)] :: vs) fs ts
  | .pairValue vs key :: fs, ts => moreElements (.mapping [(key, v)] :: vs) fs ts
  | .flowKey ms :: fs, .value :: ts =>
    if startsWithOneOf [.flowEntry, .flowMappingEnd] ts then moreMembers ((v, .empty) :: ms) fs ts
    else readNode false (.flowValue ms v :: fs) ts
  | .flowKey ms :: fs, ts => moreMembers ((v, .empty) :: ms) fs ts
  | .flowKeyAlone ms :: fs, ts => moreMembers ((v, .empty) :: ms) fs ts
  | .flowValue ms key :: fs, ts => moreMembers ((key, v) :: ms) fs ts
termination_by fs ts => (ts.length, 3 * fs.length)

def blockElements (vs : List Node) (fs : List Frame) : List Token → Option (Node × List Token)
  | .entry :: ts =>
    if startsWithOneOf [.entry, .blockEnd] ts then finish .empty (.blockElement vs :: fs) ts
    else readNode false (.blockElement vs :: fs) ts
  | .blockEnd :: ts => finish (.sequence vs.reverse) fs ts
  | _ => none
termination_by ts => (ts.length, 3 * fs.length + 2)

/-- After the dash of an element. -/
def bareElement (vs : List Node) (fs : List Frame) (ts : List Token) : Option (Node × List Token) :=
  if startsWithOneOf [.entry, .key, .value, .blockEnd] ts then
    finish .empty (.bareElement vs :: fs) ts
  else readNode false (.bareElement vs :: fs) ts
termination_by (ts.length + 1, 0)

def bareElements (vs : List Node) (fs : List Frame) : List Token → Option (Node × List Token)
  | .entry :: ts => bareElement vs fs ts
  | ts => finish (.sequence vs.reverse) fs ts
termination_by ts => (ts.length, 3 * fs.length + 2)

def blockMembers (ms : List (Node × Node)) (fs : List Frame) :
    List Token → Option (Node × List Token)
  | .key :: ts =>
    if startsWithOneOf [.key, .value, .blockEnd] ts then finish .empty (.blockKey ms :: fs) ts
    else readNode true (.blockKey ms :: fs) ts
  | .blockEnd :: ts => finish (.mapping ms.reverse) fs ts
  | _ => none
termination_by ts => (ts.length, 3 * fs.length + 2)

def flowElements (vs : List Node) (fs : List Frame) (ts : List Token) :
    Option (Node × List Token) :=
  match ts with
  | .flowSequenceEnd :: ts => finish (.sequence vs.reverse) fs ts
  | .key :: ts =>
    -- A mark in the place of the key is used up together with the key that it leaves out.
    if startsWithOneOf [.value, .flowEntry, .flowSequenceEnd] ts then
      finish .empty (.pairKey vs :: fs) ts.tail
    else readNode false (.pairKey vs :: fs) ts
  | ts => readNode false (.flowElement vs :: fs) ts
termination_by (ts.length, 3 * fs.length + 2)

/-- After an element of a flow sequence. -/
def moreElements (vs : List Node) (fs : List Frame) : List Token → Option (Node × List Token)
  | .flowSequenceEnd :: ts => finish (.sequence vs.reverse) fs ts
  | .flowEntry :: ts => flowElements vs fs ts
  | _ => none
termination_by ts => (ts.length, 3 * fs.length + 2)

def flowMembers (ms : List (Node × Node)) (fs : List Frame) (ts : List Token) :
    Option (Node × List Token) :=
  match ts with
  | .flowMappingEnd :: ts => finish (.mapping ms.reverse) fs ts
  | .key :: ts =>
    if startsWithOneOf [.value, .flowEntry, .flowMappingEnd] ts then
      finish .empty (.flowKey ms :: fs) ts
    else readNode false (.flowKey ms :: fs) ts
  | ts => readNode false (.flowKeyAlone ms :: fs) ts
termination_by (ts.length, 3 * fs.length + 2)

/-- After a member of a flow mapping. -/
def moreMembers (ms : List (Node × Node)) (fs : List Frame) :
    List Token → Option (Node × List Token)
  | .flowMappingEnd :: ts => finish (.mapping ms.reverse) fs ts
  | .flowEntry :: ts => flowMembers ms fs ts
  | _ => none
termination_by ts => (ts.length, 3 * fs.length + 2)

end

/-- The content of a document after its start. -/
def readContent : List Token → Option (Node × List Token)
  | [] => some (.empty, [])
  | .documentStart :: ts => some (.empty, .documentStart :: ts)
  | .documentEnd :: ts => some (.empty, .documentEnd :: ts)
  | ts => readNode false [] ts

/-- The node of a text of the dialect, which holds at most one document; `none` inside if it holds
nothing. -/
def parse? (text : String) : Option (Option Node) := do
  match ← tokens? text with
  | [] => pure none
  | .documentStart :: ts =>
    let (v, rest) ← readContent ts
    guard (rest.all (· == .documentEnd))
    pure (some v)
  | ts =>
    let (v, rest) ← readNode false [] ts
    guard (rest.all (· == .documentEnd))
    pure (some v)

end RowScript.Yaml
