import Lox.Files
import Lox.Settings
import Lox.Settings.Document.Meaning
import Lox.Settings.Document.Read

/-! Loading settings. A document gives settings over the defaults by the entries of its mapping. All
complaints about entries are collected, and any of them makes the document unusable. -/

namespace Lox.Settings

/-! Fields. -/

/-- The settings with a text value. -/
inductive TextField
  | logLevel | color | historyFile | prompt
  deriving DecidableEq

inductive Field
  | text (f : TextField)
  | maxCallDepth
  deriving DecidableEq

namespace Field

def key : Field → String
  | text .logLevel => "log_level"
  | text .color => "color"
  | text .historyFile => "history_file"
  | text .prompt => "prompt"
  | maxCallDepth => "max_call_depth"

def all : List Field :=
  [text .logLevel, text .color, text .historyFile, text .prompt, maxCallDepth]

def ofKey? (key : Text) : Option Field := all.find? fun field => Text.ofString field.key = key

/-- What a value of the setting is called in complaints. -/
def kind : Field → String
  | text _ => "string"
  | maxCallDepth => "int"

end Field

def setText (s : Settings) (value : Text) : TextField → Settings
  | .logLevel => { s with logLevel := value }
  | .color => { s with color := value }
  | .historyFile => { s with historyFile := value }
  | .prompt => { s with prompt := value }

/-- What the settings as a whole are called in complaints. -/
def kind : String := "internal.Config"

/-! Complaints. -/

/-- A complaint about a node of a document, on its line. -/
inductive Complaint
  | wrongKind (line : Nat) (tag value : Text) (expected : String)
  | repeatedKey (line : Nat) (key : String) (first : Nat)
  | repeatedField (line : Nat) (key : Text)

/-- A value as complaints show it. A long one is cut, and collections show none. -/
def shownValue (tag value : Text) : Text :=
  if tag = Text.ofString "!!seq" ∨ tag = Text.ofString "!!map" then value
  else
    let shown := if value.length > 10 then value.take 7 ++ Text.ofString "..." else value
    Text.ofString " \x60" ++ shown ++ Text.ofString "\x60"

private def atLine (line : Nat) (message : Text) : Text :=
  Text.ofString "line " ++ Text.ofNat line ++ Text.ofString ": " ++ message

def Complaint.message : Complaint → Text
  | wrongKind line tag value expected =>
    atLine line <| Text.ofString "cannot unmarshal " ++ tag ++ shownValue tag value ++
      Text.ofString (" into " ++ expected)
  | repeatedKey line key first =>
    atLine line <| Text.ofString "mapping key " ++ (Text.ofString key).escaped ++
      Text.ofString " already defined at line " ++ Text.ofNat first
  | repeatedField line key =>
    atLine line <| Text.ofString "field " ++ key ++
      Text.ofString (" already set in type " ++ Settings.kind)

/-- Why a document gives no settings. -/
inductive Defect
  | unreadable (t : Document.Trouble)
  | failure (f : Document.Failure)
  | complaints (all : List Complaint)

def Defect.message (d : Defect) : Text :=
  Text.ofString "yaml: " ++
    match d with
    | unreadable t =>
      let reason := Text.ofString t.reason
      (t.line?.map fun line => atLine line reason).getD reason
    | failure f => f.message
    | complaints all =>
      Text.ofString "unmarshal errors:" ++
        (all.map fun c => Text.ofString "\n  " ++ c.message).flatten

/-! Taking nodes over. -/

/-- The settings so far and the complaints about what came before. -/
structure Draft where
  settings : Settings
  complaints : List Complaint

abbrev Intake := StateT Draft (Except Document.Failure)

namespace Intake

open Document (Node Meaning)

def complain (c : Complaint) : Intake Unit :=
  modify fun d => { d with complaints := d.complaints ++ [c] }

/-- The keys that come again later in a mapping, each with the line of the earlier one. -/
def repetitions : List (Node × Node) → List Complaint
  | [] => []
  | (key, _) :: rest =>
    (rest.filter fun later => key.sameKey later.1).map
      (fun later => .repeatedKey later.1.line later.1.keyText key.line) ++ repetitions rest

/-- Complains about a mapping in place of something else. Repeated keys come first. -/
def refuseMapping (line : Nat) (tag : Option Text) (entries : List (Node × Node))
    (expected : String) : Intake Unit :=
  match repetitions entries with
  | [] => complain (.wrongKind line (tag.getD (Text.ofString "!!map")) [] expected)
  | repeated => repeated.forM complain

def refuseSequence (line : Nat) (tag : Option Text) (expected : String) : Intake Unit :=
  complain (.wrongKind line (tag.getD (Text.ofString "!!seq")) [] expected)

/-- Complains about a scalar of the wrong kind. -/
def refuseScalar (line : Nat) (tag : Option Text) (m : Meaning) (text : String)
    (expected : String) : Intake Unit :=
  complain (.wrongKind line (tag.getD (Text.ofString m.tag)) (Text.ofString text) expected)

/-- The node that a reference means. -/
def target (anchored : List (Nat × Node)) : Node → Node
  | .reference line name place anchor =>
    (anchored.lookup anchor).getD (.reference line name place anchor)
  | node => node

/-- The text of a scalar, unless it stands for nothing. -/
def text? (m : Meaning) (text : String) : Option Text :=
  match m with
  | .null => none
  | .bytes b => some b
  | _ => some (Text.ofString text)

/-- The integer of a scalar; a float counts by its whole part. -/
def integer? : Meaning → Option Int
  | .integer n => some n
  | .float whole => whole
  | _ => none

/-- The text of a key. Other nodes than scalars are refused as keys. -/
def keyText? (key : Node) : Intake (Option Text) := do
  match key with
  | .scalar _ tag plain text => pure (text? (← Meaning.ofScalar tag plain text) text)
  | .sequence line tag _ => refuseSequence line tag "string"; pure none
  | .mapping line tag entries => refuseMapping line tag entries "string"; pure none
  | .reference .. => pure none

/-- Takes the value of a field over. A value that stands for nothing changes nothing. -/
def takeField (field : Field) (value : Node) : Intake Unit := do
  match value with
  | .scalar line tag plain text =>
    let m ← Meaning.ofScalar tag plain text
    match field, m with
    | _, .null => pure ()
    | .text f, _ =>
      modify fun d => { d with settings := d.settings.setText ((text? m text).getD []) f }
    | .maxCallDepth, _ =>
      match integer? m with
      | some n => modify fun d => { d with settings := { d.settings with maxCallDepth := n } }
      | none => refuseScalar line tag m text field.kind
  | .sequence line tag _ => refuseSequence line tag field.kind
  | .mapping line tag entries => refuseMapping line tag entries field.kind
  | .reference .. => pure ()

/-- How far a mapping is taken over: the fields it has set, the keys that count no more because they
were set elsewhere, if there are such, and the value of its merge key. -/
structure Progress where
  fields : List Field
  closed : Option (List Text)
  merged : Option Node

/-- Takes an entry over. Unknown keys change nothing. -/
def takeEntry (anchored : List (Nat × Node)) (p : Progress) (entry : Node × Node) :
    Intake Progress := do
  let (key, value) := entry
  if key.isMerge then pure { p with merged := some value }
  else
    match ← keyText? (target anchored key) with
    | none => pure p
    | some name =>
      if (p.closed.getD []).contains name then pure p
      else
        let p := { p with closed := p.closed.map (name :: ·) }
        match Field.ofKey? name with
        | none => pure p
        | some field =>
          if p.fields.contains field then
            complain (.repeatedField key.line name)
            pure p
          else
            takeField field (target anchored value)
            pure { p with fields := field :: p.fields }

/-- The keys of a mapping as texts. -/
def names (anchored : List (Nat × Node)) (entries : List (Node × Node)) : List Text :=
  entries.map fun entry => Text.ofString (target anchored entry.1).keyText

/-- How a mapping is taken over by another one: the references on the way, the keys that count no more,
and its entries. It gives the keys that count no more after it. -/
abbrev MappingTaker := List Nat → List Text → List (Node × Node) → Intake (List Text)

/-- Takes a mapping over, which may stand behind a reference. -/
def takeMapping (take : MappingTaker) (anchored : List (Nat × Node)) (path : List Nat)
    (closed : List Text) (node : Node) : Intake (List Text) := do
  match node, target anchored node with
  | .reference _ name place _, .mapping _ _ entries =>
    if path.contains place then throw (.selfReference name)
    else take (place :: path) closed entries
  | _, .mapping _ _ entries => take path closed entries
  | _, _ => throw .mergeOfNoMap

/-- Takes over what a merge key has as its value: a mapping, or several of them in a sequence. -/
def takeMerged (take : MappingTaker) (anchored : List (Nat × Node)) (path : List Nat)
    (closed : List Text) (value : Node) : Intake (List Text) :=
  match value with
  | .sequence _ _ items =>
    items.foldlM (fun closed item => takeMapping take anchored path closed item) closed
  | value => takeMapping take anchored path closed value

/-- Takes the entries of a mapping over, with merged mappings nested at most `n` deep. What is merged
comes last and sets only what is not set. -/
def takeEntries (anchored : List (Nat × Node)) :
    Nat → List Nat → Option (List Text) → List (Node × Node) → Intake (Option (List Text))
  | 0, _, closed, _ => pure closed
  | n + 1, path, closed, entries => do
    match repetitions entries with
    | [] =>
      let p ← entries.foldlM (takeEntry anchored) ⟨[], closed, none⟩
      match p.merged with
      | none => pure p.closed
      | some value =>
        let take : MappingTaker := fun path closed entries => do
          pure ((← takeEntries anchored n path (some closed) entries).getD [])
        let closed ←
          takeMerged take anchored path (p.closed.getD (names anchored entries)) value
        pure (p.closed.map fun _ => closed)
    | repeated =>
      repeated.forM complain
      pure closed

/-- Takes the node of a document over: a mapping, or a scalar that stands for nothing. -/
def takeRoot (bound : Nat) (anchored : List (Nat × Node)) (root : Node) : Intake Unit := do
  match root with
  | .mapping _ _ entries =>
    let _ ← takeEntries anchored bound [] none entries
  | .sequence line tag _ => refuseSequence line tag Settings.kind
  | .scalar line tag plain text =>
    match ← Meaning.ofScalar tag plain text with
    | .null => pure ()
    | m => refuseScalar line tag m text Settings.kind
  | .reference .. => pure ()

end Intake

/-- The settings that the content of a document gives. -/
def ofContent (bound : Nat) (content : Document.Content) : Except Defect Settings :=
  match content.root with
  | none => .ok default
  | some root =>
    match (Intake.takeRoot bound content.anchored root).run ⟨default, []⟩ with
    | .error f => .error (.failure f)
    | .ok (_, ⟨s, []⟩) => .ok s
    | .ok (_, ⟨_, complaints⟩) => .error (.complaints complaints)

/-- The settings that a document gives. Mappings cannot be nested deeper than the text is long. -/
def ofDocument (text : Text) : Except Defect Settings :=
  match Document.read text with
  | .error t => .error (.unreadable t)
  | .ok content => ofContent (text.length + 1) content

/-! Files. -/

/-- Why a settings file is not used. -/
inductive LoadError
  | unreadable (reason : ReadError)
  | malformed (defect : Defect)
  | flawed (flaw : Flaw)

def LoadError.message (path : Text) : LoadError → Text
  | unreadable reason =>
    Text.ofString "reading config " ++ path ++ Text.ofString ": " ++ reason.message path
  | malformed defect =>
    Text.ofString "parsing config " ++ path ++ Text.ofString ": " ++ defect.message
  | flawed flaw => Text.ofString "invalid config " ++ path ++ Text.ofString ": " ++ flaw.message

/-- The settings of a file, given what reading it yields. A missing file gives the defaults. -/
def load : Except ReadError Text → Except LoadError Settings
  | .error .missing => .ok default
  | .error reason => .error (.unreadable reason)
  | .ok text =>
    match ofDocument text with
    | .error defect => .error (.malformed defect)
    | .ok s =>
      match s.flaw? with
      | some flaw => .error (.flawed flaw)
      | none => .ok s

end Lox.Settings
