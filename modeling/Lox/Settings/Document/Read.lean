import Lox.Settings.Document.Node
import Lox.Settings.Document.Tokens

/-! Reading nodes from tokens. A document ends with its node: what follows is looked at only as far as
tokens are read ahead. -/

namespace Lox.Document

/-- A reader of nodes: the tokens, the handles of tags, the anchors so far with their numbers, the
latest first, and the nodes that have one. -/
structure Reading where
  tokens : Tokens
  handles : List (Text × Text)
  anchors : List (String × Nat)
  anchored : List (Nat × Node)

abbrev Reader := StateT Reading Result

namespace Reader

def peek : Reader Token := do
  let r ← get
  let (token, tokens) ← r.tokens.peek
  set { r with tokens := tokens }
  pure token

def advance : Reader Unit := modify fun r => { r with tokens := r.tokens.advance }

def fail {α : Type} (p : Problem) (context here : Mark) : Reader α :=
  throw (.arrangement p context here)

/-! Tags and anchors. -/

/-- What the names of common tags start with. -/
def commonTag : Text := Text.ofString "tag:yaml.org,2002:"

def defaultHandles : List (Text × Text) :=
  [(Text.ofString "!", Text.ofString "!"), (Text.ofString "!!", commonTag)]

/-- A tag as complaints show it; one that says nothing is left out. -/
def shownTag? (tag : Text) : Option Text :=
  if tag.isEmpty || tag == Text.ofString "!" then none
  else if commonTag.isPrefixOf tag then some (Text.ofString "!!" ++ tag.drop commonTag.length)
  else some tag

/-- What comes before a node: where it starts, and its anchor and tag. -/
structure Properties where
  mark : Mark
  anchor : Option String
  tag : Option (Token.Tag × Mark)

def anchorHere? : Reader (Option String) := do
  match (← peek).kind with
  | .anchor name => advance; pure (some name)
  | _ => pure none

def tagHere? : Reader (Option (Token.Tag × Mark)) := do
  let token ← peek
  match token.kind with
  | .tag t => advance; pure (some (t, token.mark))
  | _ => pure none

/-- An anchor and a tag in either order. -/
def properties : Reader Properties := do
  let mark := (← peek).mark
  match ← anchorHere? with
  | some name => pure ⟨mark, some name, ← tagHere?⟩
  | none =>
    match ← tagHere? with
    | some tag => pure ⟨mark, ← anchorHere?, some tag⟩
    | none => pure ⟨mark, none, none⟩

/-- The full name of a tag. -/
def tagName (p : Properties) : Reader Text := do
  match p.tag with
  | none => pure []
  | some (tag, mark) =>
    if tag.handle.isEmpty then pure tag.suffix
    else
      match (← get).handles.lookup tag.handle with
      | some value => pure (value ++ tag.suffix)
      | none => fail .unknownHandle p.mark mark

/-- Reads a node under its anchor. The anchor is known inside of the node already. -/
def underAnchor (anchor : Option String) (read : Reader Node) : Reader Node := do
  match anchor with
  | none => read
  | some name =>
    let number := (← get).anchors.length
    modify fun r => { r with anchors := (name, number) :: r.anchors }
    let node ← read
    modify fun r => { r with anchored := (number, node) :: r.anchored }
    pure node

def reference (name : String) (mark : Mark) : Reader Node := do
  match (← get).anchors.lookup name with
  | some number => pure (.reference (mark.line + 1) name mark.index number)
  | none => throw (.unknownAnchor name)

/-! Collections. Each takes the reader for the nodes inside of it. -/

/-- Where a node stands, which decides how its collections are written: on lines of their own, also
without indentation below a key, or in brackets. -/
inductive Place
  | block | belowKey | brackets
  deriving DecidableEq

/-- Reads a node, unless one of the given tokens comes next. -/
def nodeUnless (stops : List Token.Kind) (node : Reader Node) (mark : Mark) : Reader Node := do
  if stops.contains (← peek).kind then pure (.empty mark) else node

def blockItems (node : Place → Reader Node) (start : Mark) : Nat → Reader (List Node)
  | 0 => pure []
  | n + 1 => do
    let token ← peek
    match token.kind with
    | .item =>
      advance
      let first ← nodeUnless [.item, .blockEnd] (node .block) token.mark
      pure (first :: (← blockItems node start n))
    | .blockEnd => advance; pure []
    | _ => fail .missingItem start token.mark

/-- The items of a sequence that is not indented below its key. -/
def looseItems (node : Place → Reader Node) : Nat → Reader (List Node)
  | 0 => pure []
  | n + 1 => do
    let token ← peek
    match token.kind with
    | .item =>
      advance
      let first ← nodeUnless [.item, .key, .value, .blockEnd] (node .block) token.mark
      pure (first :: (← looseItems node n))
    | _ => pure []

/-- A key or a value of a mapping on lines of its own. -/
def blockPart (node : Place → Reader Node) (mark : Mark) : Reader Node :=
  nodeUnless [.key, .value, .blockEnd] (node .belowKey) mark

def blockValue (node : Place → Reader Node) : Reader Node := do
  let token ← peek
  match token.kind with
  | .value => advance; blockPart node token.mark
  | _ => pure (.empty token.mark)

def blockEntries (node : Place → Reader Node) (start : Mark) : Nat → Reader (List (Node × Node))
  | 0 => pure []
  | n + 1 => do
    let token ← peek
    match token.kind with
    | .key =>
      advance
      let key ← blockPart node token.mark
      let value ← blockValue node
      pure ((key, value) :: (← blockEntries node start n))
    | .blockEnd => advance; pure []
    | _ => fail .missingKey start token.mark

/-- A value in brackets. -/
def bracketValue (c : Collection) (node : Place → Reader Node) : Reader Node := do
  let token ← peek
  match token.kind with
  | .value => advance; nodeUnless [.comma, .closing c] (node .brackets) token.mark
  | _ => pure (.empty token.mark)

/-- A mapping of a single entry that stands as an item in brackets. If its key is missing, the token in
place of the key is passed over. -/
def singleEntry (node : Place → Reader Node) : Reader (List (Node × Node)) := do
  let token ← peek
  let key ←
    if [.value, .comma, .closing .sequence].contains token.kind then do
      advance
      pure (.empty token.mark)
    else node .brackets
  let value ← bracketValue .sequence node
  let _ ← peek
  pure [(key, value)]

/-- The token after the comma before an item or entry; the first has no comma before it. -/
def pastComma (c : Collection) (start : Mark) (first : Bool) : Reader Token := do
  let token ← peek
  if first || token.kind = .closing c then pure token
  else if token.kind = .comma then do
    advance
    peek
  else fail (.missingComma c.closing) start token.mark

def bracketItems (node : Place → Reader Node) (start : Mark) : Nat → Bool → Reader (List Node)
  | 0, _ => pure []
  | n + 1, first => do
    let token ← pastComma .sequence start first
    match token.kind with
    | .closing .sequence => advance; pure []
    | .key =>
      advance
      let entries ← singleEntry node
      pure (.mapping (token.mark.line + 1) none entries :: (← bracketItems node start n false))
    | _ =>
      let item ← node .brackets
      pure (item :: (← bracketItems node start n false))

def bracketEntries (node : Place → Reader Node) (start : Mark) :
    Nat → Bool → Reader (List (Node × Node))
  | 0, _ => pure []
  | n + 1, first => do
    let token ← pastComma .mapping start first
    match token.kind with
    | .closing .mapping => advance; pure []
    | .key =>
      advance
      let key ← nodeUnless [.value, .comma, .closing .mapping] (node .brackets) token.mark
      let value ← bracketValue .mapping node
      pure ((key, value) :: (← bracketEntries node start n false))
    | _ =>
      let key ← node .brackets
      let value := .empty (← peek).mark
      pure ((key, value) :: (← bracketEntries node start n false))

/-! Nodes. -/

/-- The node itself, after its anchor and tag. -/
def content (node : Place → Reader Node) (bound : Nat) (place : Place) (p : Properties)
    (tag : Text) : Reader Node := do
  let token ← peek
  let line := p.mark.line + 1
  let shown := shownTag? tag
  match token.kind with
  | .scalar plain text => advance; pure (.scalar line shown plain text)
  | .opening .sequence =>
    advance
    pure (.sequence line shown (← bracketItems node token.mark bound true))
  | .opening .mapping =>
    advance
    pure (.mapping line shown (← bracketEntries node token.mark bound true))
  | kind =>
    if kind = .item && place = .belowKey then
      pure (.sequence line shown (← looseItems node bound))
    else if kind = .block .sequence && place ≠ .brackets then do
      advance
      pure (.sequence line shown (← blockItems node token.mark bound))
    else if kind = .block .mapping && place ≠ .brackets then do
      advance
      pure (.mapping line shown (← blockEntries node token.mark bound))
    else if p.anchor.isSome || !tag.isEmpty then pure (.scalar line shown true "")
    else fail .missingContent p.mark token.mark

/-- A node that is nested at most `n` deep. -/
def node (bound : Nat) : Nat → Place → Reader Node
  | 0, _ => throw (.encoding .tooDeep)
  | n + 1, place => do
    let token ← peek
    match token.kind with
    | .reference name => advance; reference name token.mark
    | _ =>
      let p ← properties
      let _ ← peek
      let tag ← tagName p
      underAnchor p.anchor (content (node bound n) bound place p tag)

/-! Documents. -/

/-- Reads directives, at most `n` of them. Handles of the document come before the common ones. -/
def directives : Nat → Bool → Reader Unit
  | 0, _ => pure ()
  | n + 1, versioned => do
    let token ← peek
    match token.kind with
    | .version major minor =>
      if versioned then fail .repeatedVersion .start token.mark
      else if major ≠ 1 ∨ minor ≠ 1 then fail .strangeVersion .start token.mark
      else
        advance
        directives n true
    | .handle name value =>
      if ((← get).handles.lookup name).isSome then fail .repeatedHandle .start token.mark
      else
        modify fun r => { r with handles := r.handles ++ [(name, value)] }
        advance
        directives n versioned
    | _ => modify fun r => { r with handles := r.handles ++ defaultHandles }

def isDirective : Token.Kind → Bool
  | .version .. | .handle .. => true
  | _ => false

/-- The node of a document after its start marker. -/
def markedContent (bound : Nat) : Reader Node := do
  let token ← peek
  if isDirective token.kind || [.documentStart, .documentEnd, .finish].contains token.kind then
    pure (.empty token.mark)
  else node bound bound .block

/-- The node of the first document, if there is any. -/
def document (bound : Nat) : Reader (Option Node) := do
  let _ ← peek
  advance
  let token ← peek
  if token.kind = .finish then pure none
  else
    directives bound false
    let root ←
      if isDirective token.kind || token.kind = .documentStart then do
        let start ← peek
        if start.kind = .documentStart then do
          advance
          markedContent bound
        else fail .missingStart .start start.mark
      else node bound bound .block
    let _ ← peek
    pure (some root)

end Reader

/-- Reads a document. There are at most four tokens to a character, so that many steps suffice. -/
def read (text : Text) : Result Content := do
  let bound := 4 * text.length + 8
  let (root, r) ← (Reader.document bound).run ⟨.ofText text, [], [], []⟩
  pure ⟨root, r.anchored⟩

end Lox.Document
