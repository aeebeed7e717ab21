import NetNexus.Netconf.Framing
import NetNexus.Node.Text

/-!
# NETCONF messages

What `xml.js` makes of the documents that the XML parser returns, the checks on XML texts, and the
envelope that a request is sent in. The XML parser and validator come from `fast-xml-parser`; texts
are read by regular expressions as the source has them.
-/

namespace Netconf

open Node

/-- The class of an error of the client. -/
inductive ErrorName where
  | connection
  | protocol
  | timeout
  | rpcCancelled
  | rpc
  | xml
  | type
  | range
  | other
  deriving DecidableEq

/-- An error with its `code`, which a plain error does not have. -/
structure ClientError where
  name : ErrorName
  message : String
  code : String := ""
  deriving DecidableEq

/-! ## Documents -/

/-- A value of a parsed document. The attributes of an element are entries `@_name`. -/
inductive XmlNode where
  | text (value : String)
  | array (items : List XmlNode)
  | object (entries : List (String × XmlNode))

/-- `fast-xml-parser` -/
structure XmlLibrary where
  /-- `XMLValidator.validate`: what is wrong with a text, if anything is, and the line. -/
  validate : String → Option (String × ℕ)
  /-- `XMLParser.parse`, which keeps the content of `rpc-reply.data` as text if it is told so. -/
  parse : Bool → String → Except String XmlNode

/-- `localName`: what stands behind the first colon. -/
def localName (name : String) : String :=
  let name := name.toList
  if ':' ∈ name then String.ofList ((name.dropWhile (· ≠ ':')).drop 1) else String.ofList name

def trimmed (text : String) : String := String.ofList (trim text.toList)

/-- `name.startsWith('@_')` -/
def isAttribute (name : String) : Bool := "@_".toList.isPrefixOf name.toList

mutual

def textValue : XmlNode → Option String
  | .text value => some (trimmed value)
  | .array items =>
    match (textValues items).filter (· ≠ "") with
    | [] => none
    | values => some (String.join values)
  | .object entries => entryText entries

def textValues : List XmlNode → List String
  | [] => []
  | item :: items => (textValue item).toList ++ textValues items

def entryText : List (String × XmlNode) → Option String
  | [] => none
  | (name, node) :: entries => if name = "#text" then textValue node else entryText entries

end

namespace XmlNode

def entries : XmlNode → List (String × XmlNode)
  | .object entries => entries
  | _ => []

def asArray : XmlNode → List XmlNode
  | .array items => items
  | node => [node]

end XmlNode

/-- `entriesByLocalName` -/
def childValues (node : XmlNode) (wantedName : String) : List XmlNode :=
  node.entries.flatMap fun (name, value) =>
    if !isAttribute name ∧ name ≠ "#text" ∧ localName name = localName wantedName then value.asArray
    else []

def childText (node : XmlNode) (wantedName : String) : Option String :=
  (childValues node wantedName).head?.bind textValue

def childTexts (node : XmlNode) (wantedName : String) : List String :=
  ((childValues node wantedName).filterMap textValue).filter (· ≠ "")

def getAttribute (node : XmlNode) (wantedName : String) : Option String :=
  node.entries.findSome? fun (name, value) =>
    if isAttribute name ∧ localName (String.ofList (name.toList.drop 2)) = localName wantedName then
      match value with
      | .text value => some value
      | _ => some "[object Object]"
    else none

def findRoot (document : XmlNode) : Option (String × XmlNode) :=
  (document.entries.find? fun (name, _) =>
    name.toList.head? ≠ some '?' ∧ !isAttribute name ∧ name ≠ "#text").map fun (name, value) =>
      (localName name, value)

/-! ## Messages -/

/-- What is read of an `rpc-error`. -/
structure RpcErrorInfo where
  type : Option String
  tag : Option String
  severity : Option String
  appTag : Option String
  path : Option String
  message : Option String
  messageLanguage : Option String
  info : Option XmlNode

def normalizeRpcError (node : XmlNode) : RpcErrorInfo where
  type := childText node "error-type"
  tag := childText node "error-tag"
  severity := childText node "error-severity"
  appTag := childText node "error-app-tag"
  path := childText node "error-path"
  message := childText node "error-message"
  messageLanguage := (childValues node "error-message").head?.bind (getAttribute · "lang")
  info := (childValues node "error-info").head?

/-- A message of type `rpc-reply`. -/
structure Reply where
  xml : String
  messageId : Option String
  ok : Bool
  data : Option XmlNode
  errors : List RpcErrorInfo
  transportSequence : ℕ := 0

/-- What is read of a message. -/
inductive Message where
  | hello (sessionId : Option String) (capabilities : List String)
  | rpcReply (reply : Reply)
  | notification (xml : String) (eventTime : Option String)
  | other (type : String) (xml : String)

def defaultMaxXmlSize : ℕ := 64 * 1024 * 1024

/-- The characters `\w` of a regular expression. -/
def isWord (c : Char) : Bool := c.isAlphanum || c == '_'

/-- The text behind a word, in any case, that a text starts with. -/
def stripWord (word text : List Char) : Option (List Char) :=
  if (text.take word.length).map Char.toLower = word then some (text.drop word.length) else none

/-- `\b` behind a word: the text does not go on with a word character. -/
def atBoundary (text : List Char) : Bool := !text.head?.any isWord

/-- The test `/<!\s*(?:DOCTYPE|ENTITY)\b/i`. -/
def hasDeclaration : List Char → Bool
  | [] => false
  | c :: rest =>
    (match c, rest with
      | '<', '!' :: rest =>
        ["doctype", "entity"].any fun word =>
          (stripWord word.toList (rest.dropWhile isWhiteSpace)).any atBoundary
      | _, _ => false) || hasDeclaration rest

/-- `assertSafeXml` of a text; a size of 0 stands for an absent option. -/
def assertSafeXml (maxXmlSize : ℕ) (xml : String) : Except ClientError String :=
  let maxXmlSize := orDefault maxXmlSize defaultMaxXmlSize
  if xml.utf8ByteSize > maxXmlSize then
    .error ⟨.xml, s!"NETCONF XML exceeds {maxXmlSize} bytes", "NETCONF_XML_TOO_LARGE"⟩
  else if hasDeclaration xml.toList then
    .error ⟨.xml, "NETCONF XML containing DOCTYPE or ENTITY declarations is not allowed",
      "NETCONF_UNSAFE_XML"⟩
  else .ok xml

section

variable (lib : XmlLibrary)

def parseValidatedXml (keepData : Bool) (value : String) : Except ClientError XmlNode :=
  match lib.validate value with
  | some (message, line) =>
    let suffix := if line = 0 then "" else s!" at line {line}"
    .error ⟨.xml, s!"Invalid NETCONF XML{suffix}: {message}", "NETCONF_INVALID_XML"⟩
  | none =>
    match lib.parse keepData value with
    | .ok document => .ok document
    | .error message =>
      .error ⟨.xml, s!"Unable to parse NETCONF XML: {message}", "NETCONF_INVALID_XML"⟩

def parseXml (xml : String) : Except ClientError XmlNode := do
  parseValidatedXml lib false (← assertSafeXml 0 xml)

/-- What `data: childValues(root, 'data')[0] || null` makes of the first value. -/
def truthy : XmlNode → Option XmlNode
  | .text "" => none
  | node => some node

def readReply (xml : String) (root : XmlNode) : Reply where
  xml
  messageId := getAttribute root "message-id"
  ok := !(childValues root "ok").isEmpty
  data := (childValues root "data").head?.bind truthy
  errors := (childValues root "rpc-error").map normalizeRpcError

def readMessage (xml name : String) (root : XmlNode) : Message :=
  if name = "hello" then
    let capabilities := ((childValues root "capabilities").head?.bind truthy).getD (.object [])
    .hello (childText root "session-id") (childTexts capabilities "capability")
  else if name = "rpc-reply" then .rpcReply (readReply xml root)
  else if name = "notification" then .notification xml (childText root "eventTime")
  else .other name xml

def parseNetconfMessage (maxXmlSize : ℕ) (opaqueRpcReplyData : Bool) (xml : String) :
    Except ClientError Message := do
  let value ← assertSafeXml maxXmlSize xml
  let document ← parseValidatedXml lib opaqueRpcReplyData value
  match findRoot document with
  | none => .error ⟨.xml, "NETCONF XML has no document element", "NETCONF_INVALID_XML"⟩
  | some (name, root) => return readMessage value name root

end

end Netconf
