import Bilingual.YamlTokens

/-!
# Reading YAML

A stream of one document is read into the tree of its nodes.  Anchored nodes
carry their labels in the tree, and aliases refer to the last node of a label.

The functions for nodes and for the collections call each other.  Each call uses
up a token or ends a collection, so that four calls for each token are more than
enough; the argument `steps` bounds their number.
-/

namespace Bilingual

/-- A node of a YAML document.  A scalar is plain when it was not written in
quotes or as a block; a node that is left out is an empty plain scalar. -/
inductive YamlNode
  | scalar (plain : Bool) (text : Text)
  | sequence (items : List YamlNode)
  | mapping (entries : List (YamlNode × YamlNode))
  | alias (label : Nat)
  | anchored (label : Nat) (node : YamlNode)
  deriving Repr

namespace YamlNode

/-- The node where nothing is written. -/
def missing : YamlNode :=
  .scalar true []

mutual

/-- The last node with a given label below a node. -/
def find? (label : Nat) : YamlNode → Option YamlNode
  | .scalar _ _ | .alias _ => none
  | .sequence items => findInItems? label items
  | .mapping entries => findInEntries? label entries
  | .anchored other node =>
      (find? label node).or (if other = label then some node else none)

/-- The last node with a given label below some nodes. -/
def findInItems? (label : Nat) : List YamlNode → Option YamlNode
  | [] => none
  | item :: items => (findInItems? label items).or (find? label item)

/-- The last node with a given label below some pairs of nodes. -/
def findInEntries? (label : Nat) : List (YamlNode × YamlNode) → Option YamlNode
  | [] => none
  | (key, value) :: entries =>
      ((findInEntries? label entries).or (find? label value)).or (find? label key)

end

/-- The node itself where an anchor marks it or an alias stands for it, in the
document with the given root. -/
def resolve (root : YamlNode) : YamlNode → YamlNode
  | .alias label => (root.find? label).getD (.alias label)
  | .anchored _ node => node
  | node => node

end YamlNode

/-- The anchor and the tag of a node.  A node has at most one of each. -/
structure YamlProperties where
  label : Option Nat
  tagged : Bool
  deriving DecidableEq, Repr

namespace YamlProperties

/-- The node has an anchor or a tag. -/
def isPresent (properties : YamlProperties) : Bool :=
  properties.label.isSome || properties.tagged

/-- A node with its properties. -/
def apply (properties : YamlProperties) (node : YamlNode) : YamlNode :=
  match properties.label with
  | some label => .anchored label node
  | none => node

end YamlProperties

/-- The tag has no handle or one that is known. -/
def isKnownHandle (handles : List Text) (handle : Option Text) : Bool :=
  handle.all handles.contains

/-- Reads an anchor and a tag, in any order. -/
def yamlProperties? (handles : List Text) :
    List YamlToken → Option (YamlProperties × List YamlToken)
  | .anchor label :: .tag handle :: tokens
  | .tag handle :: .anchor label :: tokens =>
      if isKnownHandle handles handle then some (⟨some label, true⟩, tokens) else none
  | .anchor label :: tokens => some (⟨some label, false⟩, tokens)
  | .tag handle :: tokens =>
      if isKnownHandle handles handle then some (⟨none, true⟩, tokens) else none
  | tokens => some (⟨none, false⟩, tokens)

/-- Where a node stands: in a flow collection, in a block, or as a key or value of
a block mapping, where a sequence need not be indented. -/
inductive YamlContext
  | flow
  | block
  | blockMapping
  deriving DecidableEq, Repr

/-- Nothing is written between the last token and the next one if that is one of
these. -/
def endsYamlPart (ends : List YamlToken) : List YamlToken → Bool
  | [] => false
  | token :: _ => ends.contains token

mutual

/-- Reads a node. -/
def yamlNode? (handles : List Text) (context : YamlContext) :
    Nat → List YamlToken → Option (YamlNode × List YamlToken)
  | 0, _ => none
  | _ + 1, .alias label :: tokens => some (.alias label, tokens)
  | steps + 1, tokens => do
      let (properties, tokens) ← yamlProperties? handles tokens
      let (node, tokens) ← match tokens, context with
        | .blockEntry :: _, .blockMapping => do
            let (items, tokens) ← plainItems? handles steps tokens
            some (YamlNode.sequence items, tokens)
        | .scalar plain text :: tokens, _ => some (YamlNode.scalar plain text, tokens)
        | .flowSequenceStart :: tokens, _ => do
            let (items, tokens) ← flowItems? handles true steps tokens
            some (YamlNode.sequence items, tokens)
        | .flowMappingStart :: tokens, _ => do
            let (entries, tokens) ← flowEntries? handles true steps tokens
            some (YamlNode.mapping entries, tokens)
        | .blockSequenceStart :: tokens, .block
        | .blockSequenceStart :: tokens, .blockMapping => do
            let (items, tokens) ← blockItems? handles steps tokens
            some (YamlNode.sequence items, tokens)
        | .blockMappingStart :: tokens, .block
        | .blockMappingStart :: tokens, .blockMapping => do
            let (entries, tokens) ← blockEntries? handles steps tokens
            some (YamlNode.mapping entries, tokens)
        | tokens, _ =>
            if properties.isPresent then some (YamlNode.missing, tokens) else none
      return (properties.apply node, tokens)

/-- Reads a node unless one of some tokens follows, which leave it out. -/
def yamlNodeOrMissing? (handles : List Text) (context : YamlContext)
    (ends : List YamlToken) :
    Nat → List YamlToken → Option (YamlNode × List YamlToken)
  | 0, _ => none
  | steps + 1, tokens =>
      if endsYamlPart ends tokens then some (.missing, tokens)
      else yamlNode? handles context steps tokens

/-- Reads the items of an indented block sequence up to its end. -/
def blockItems? (handles : List Text) :
    Nat → List YamlToken → Option (List YamlNode × List YamlToken)
  | 0, _ => none
  | _ + 1, .blockEnd :: tokens => some ([], tokens)
  | steps + 1, .blockEntry :: tokens => do
      let (item, tokens) ←
        yamlNodeOrMissing? handles .block [.blockEntry, .blockEnd] steps tokens
      let (items, tokens) ← blockItems? handles steps tokens
      return (item :: items, tokens)
  | _ + 1, _ => none

/-- Reads the items of a block sequence that is not indented. -/
def plainItems? (handles : List Text) :
    Nat → List YamlToken → Option (List YamlNode × List YamlToken)
  | 0, _ => none
  | steps + 1, .blockEntry :: tokens => do
      let (item, tokens) ← yamlNodeOrMissing? handles .block
        [.blockEntry, .key, .value, .blockEnd] steps tokens
      let (items, tokens) ← plainItems? handles steps tokens
      return (item :: items, tokens)
  | _ + 1, tokens => some ([], tokens)

/-- Reads the entries of a block mapping up to its end. -/
def blockEntries? (handles : List Text) :
    Nat → List YamlToken → Option (List (YamlNode × YamlNode) × List YamlToken)
  | 0, _ => none
  | _ + 1, .blockEnd :: tokens => some ([], tokens)
  | steps + 1, .key :: tokens => do
      let ends : List YamlToken := [.key, .value, .blockEnd]
      let (key, tokens) ← yamlNodeOrMissing? handles .blockMapping ends steps tokens
      let (value, tokens) ← match tokens with
        | .value :: tokens => yamlNodeOrMissing? handles .blockMapping ends steps tokens
        | tokens => some (.missing, tokens)
      let (entries, tokens) ← blockEntries? handles steps tokens
      return ((key, value) :: entries, tokens)
  | _ + 1, _ => none

/-- Reads the items of a flow sequence up to its end.  An item that starts with a
key is a mapping of one entry. -/
def flowItems? (handles : List Text) (first : Bool) :
    Nat → List YamlToken → Option (List YamlNode × List YamlToken)
  | 0, _ => none
  | _ + 1, .flowSequenceEnd :: tokens => some ([], tokens)
  | steps + 1, tokens => do
      let tokens ← match first, tokens with
        | true, tokens => some tokens
        | false, .flowEntry :: tokens => some tokens
        | false, _ => none
      match tokens with
      | .flowSequenceEnd :: tokens => some ([], tokens)
      | .key :: tokens =>
          let (entry, tokens) ← flowPair? handles steps tokens
          let (items, tokens) ← flowItems? handles false steps tokens
          return (.mapping [entry] :: items, tokens)
      | tokens =>
          let (item, tokens) ← yamlNode? handles .flow steps tokens
          let (items, tokens) ← flowItems? handles false steps tokens
          return (item :: items, tokens)

/-- Reads the only entry of a mapping in a flow sequence.  The token in whose
place the key is left out is passed over. -/
def flowPair? (handles : List Text) :
    Nat → List YamlToken → Option ((YamlNode × YamlNode) × List YamlToken)
  | 0, _ => none
  | steps + 1, tokens => do
      let (key, tokens) ←
        if endsYamlPart [.value, .flowEntry, .flowSequenceEnd] tokens then
          some (YamlNode.missing, tokens.tail)
        else yamlNode? handles .flow steps tokens
      match tokens with
      | .value :: tokens =>
          let (value, tokens) ← yamlNodeOrMissing? handles .flow
            [.flowEntry, .flowSequenceEnd] steps tokens
          return ((key, value), tokens)
      | tokens => return ((key, YamlNode.missing), tokens)

/-- Reads the value behind a key of a flow mapping, if there is one. -/
def flowValue? (handles : List Text) :
    Nat → List YamlToken → Option (YamlNode × List YamlToken)
  | 0, _ => none
  | steps + 1, .value :: tokens =>
      yamlNodeOrMissing? handles .flow [.flowEntry, .flowMappingEnd] steps tokens
  | _ + 1, tokens => some (.missing, tokens)

/-- Reads the entries of a flow mapping up to its end. -/
def flowEntries? (handles : List Text) (first : Bool) :
    Nat → List YamlToken → Option (List (YamlNode × YamlNode) × List YamlToken)
  | 0, _ => none
  | _ + 1, .flowMappingEnd :: tokens => some ([], tokens)
  | steps + 1, tokens => do
      let tokens ← match first, tokens with
        | true, tokens => some tokens
        | false, .flowEntry :: tokens => some tokens
        | false, _ => none
      match tokens with
      | .flowMappingEnd :: tokens => some ([], tokens)
      | .key :: tokens =>
          let (key, tokens) ← yamlNodeOrMissing? handles .flow
            [.value, .flowEntry, .flowMappingEnd] steps tokens
          let (value, tokens) ← flowValue? handles steps tokens
          let (entries, tokens) ← flowEntries? handles false steps tokens
          return ((key, value) :: entries, tokens)
      | tokens =>
          let (key, tokens) ← yamlNode? handles .flow steps tokens
          let (entries, tokens) ← flowEntries? handles false steps tokens
          return ((key, YamlNode.missing) :: entries, tokens)

end

/-- Reads the directives in front of a document: at most one version, which has to
be 1.1 or 1.2, and handles, no two of which are the same. -/
def yamlDirectives? (version : Bool) (handles : List Text) :
    List YamlToken → Option (List Text × List YamlToken)
  | .version major minor :: tokens =>
      if !version && major = 1 && (minor = 1 || minor = 2) then
        yamlDirectives? true handles tokens
      else none
  | .tagHandle handle :: tokens =>
      if handles.contains handle then none
      else yamlDirectives? version (handle :: handles) tokens
  | tokens => some (handles, tokens)

/-- Reads the content of a document that has been started explicitly. -/
def yamlContent? (handles : List Text) (tokens : List YamlToken) :
    Option (YamlNode × List YamlToken) :=
  match tokens with
  | .version _ _ :: _ | .tagHandle _ :: _ | .documentStart :: _ | .documentEnd :: _
  | .streamEnd :: _ => some (.missing, tokens)
  | _ => yamlNode? handles .block (4 * tokens.length + 4) tokens

/-- Reads the first document of a stream.  Behind directives it has to be started
explicitly. -/
def yamlDocument? (tokens : List YamlToken) : Option (YamlNode × List YamlToken) := do
  let (declared, behind) ← yamlDirectives? false [] tokens
  let handles := "!".toList :: "!!".toList :: declared
  match behind with
  | .documentStart :: content => yamlContent? handles content
  | .streamEnd :: _ => none
  | content =>
      if content.length = tokens.length then
        yamlNode? handles .block (4 * content.length + 4) content
      else none

/-- The document has to be the only one. -/
def endsYamlStream (tokens : List YamlToken) : Bool :=
  tokens.dropWhile (· = .documentEnd) = [.streamEnd]

/-- Reads a stream that consists of one document. -/
def YamlNode.read? (source : Text) : Option YamlNode := do
  let tokens ← yamlTokens? source
  let (root, rest) ← yamlDocument? tokens
  if endsYamlStream rest then some root else none

end Bilingual
