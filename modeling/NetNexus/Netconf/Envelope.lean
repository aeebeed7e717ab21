import NetNexus.Netconf.Xml

/-!
# The envelope of a request

`buildRpc`, `extractRpcMessageId` and `ensureRpcEnvelope`: a request is the XML text that is sent
and the id under which its reply is expected. The regular expressions of the source are functions
on lists of characters.
-/

namespace Netconf

open Node

/-! ## Replacing -/

/-- `text.replace` with a global pattern: `find?` tells how many characters match at the head of a
text and what replaces them, which may throw. The first argument counts the characters of a match
that are still to be skipped. -/
def replaceMatches (find? : List Char → Option (ℕ × Except ClientError (List Char))) :
    ℕ → List Char → Except ClientError (List Char)
  | _, [] => .ok []
  | skip + 1, _ :: rest => replaceMatches find? skip rest
  | 0, c :: rest =>
    match find? (c :: rest) with
    | some (n, value) => do return (← value) ++ (← replaceMatches find? (n - 1) rest)
    | none => do return c :: (← replaceMatches find? 0 rest)

def literal (pattern replacement : String) (text : List Char) :
    Option (ℕ × Except ClientError (List Char)) :=
  if pattern.toList <+: text then some (pattern.length, .ok replacement.toList) else none

/-- `String.fromCodePoint`. A surrogate is no character and is replaced as in UTF-8. -/
def fromCodePoint (n : ℕ) : Except ClientError (List Char) :=
  if 0x10FFFF < n then .error ⟨.range, s!"Invalid code point {n}", ""⟩
  else .ok [if n.isValidChar then Char.ofNat n else replacementChar]

/-- A numeric entity: `start` up to the digits, and what is a digit. -/
def numericEntity (start : List Char) (base : ℕ) (text : List Char) :
    Option (ℕ × Except ClientError (List Char)) :=
  if (text.take start.length).map Char.toLower = start then
    let rest := text.drop start.length
    let digits := rest.takeWhile fun c => (hexValue c).any (· < base)
    if digits ≠ [] ∧ (rest.drop digits.length).head? = some ';' then
      let value := digits.foldl (fun acc c => acc * base + (hexValue c).getD 0) 0
      some (start.length + digits.length + 1, fromCodePoint value)
    else none
  else none

def replaceAll (patterns : List (List Char → Option (ℕ × Except ClientError (List Char))))
    (text : List Char) : Except ClientError (List Char) :=
  patterns.foldlM (fun text find? => replaceMatches find? 0 text) text

def decodeXmlText : List Char → Except ClientError (List Char) :=
  replaceAll [literal "&lt;" "<", literal "&gt;" ">", literal "&quot;" "\"", literal "&apos;" "'",
    literal "&amp;" "&", numericEntity ['&', '#', 'x'] 16, numericEntity ['&', '#'] 10]

def escapeXmlAttribute : List Char → Except ClientError (List Char) :=
  replaceAll [literal "&" "&amp;", literal "<" "&lt;", literal ">" "&gt;", literal "\"" "&quot;",
    literal "'" "&apos;"]

/-! ## The opening tag -/

/-- The text behind `rpc` at a word boundary. -/
def stripRpc (text : List Char) : Option (List Char) :=
  (stripWord ['r', 'p', 'c'] text).filter atBoundary

/-- The text behind `(?:[A-Za-z_][\w.-]*:)?rpc\b`. -/
def stripRpcName (text : List Char) : Option (List Char) :=
  let prefixed := match text with
    | c :: rest =>
      if c.isAlpha ∨ c = '_' then
        match rest.dropWhile fun c => isWord c || c == '.' || c == '-' with
        | ':' :: rest => stripRpc rest
        | _ => none
      else none
    | [] => none
  prefixed.or (stripRpc text)

/-- The text behind the name of an element `rpc` that a text starts with. -/
def stripRpcElement : List Char → Option (List Char)
  | '<' :: text => stripRpcName text
  | _ => none

/-- The value of `message-id\s*=\s*(["'])(.*?)\1` at the head of a text. -/
def messageIdAt (text : List Char) : Option (List Char) := do
  let rest ← stripWord "message-id".toList text
  match rest.dropWhile isWhiteSpace with
  | '=' :: rest =>
    match rest.dropWhile isWhiteSpace with
    | quote :: rest =>
      let value := rest.takeWhile (· ≠ quote)
      if (quote = '"' ∨ quote = '\'') ∧ value.length < rest.length ∧
          value.all (fun c => c.toNat ∉ [0x0A, 0x0D, 0x2028, 0x2029]) then some value
      else none
    | [] => none
  | _ => none

/-- The first attribute of that name at a word boundary. The flag tells whether a word character
stands before the text; a prefix of the name makes no difference. -/
def findMessageId : Bool → List Char → Option (List Char)
  | _, [] => none
  | behindWord, c :: rest =>
    match if behindWord then none else messageIdAt (c :: rest) with
    | some value => some value
    | none => findMessageId (isWord c) rest

/-- The id in the opening tag of an envelope, if the text is one and has an id. -/
def extractRpcMessageId (xml : String) : Except ClientError (Option String) :=
  let text := xml.toList.dropWhile isWhiteSpace
  if (stripRpcElement text).any (fun rest => '>' ∈ rest) then
    match findMessageId false (text.takeWhile (· ≠ '>')) with
    | some value => do return some (String.ofList (← decodeXmlText value))
    | none => .ok none
  else .ok none

/-! ## The request -/

def requireNonEmpty (value name : String) : Except ClientError String :=
  if trimmed value = "" then .error ⟨.type, s!"{name} must be a non-empty string", ""⟩
  else .ok (trimmed value)

def baseNamespace : String := "urn:ietf:params:xml:ns:netconf:base:1.0"

/-- The opening tag and the content of `buildRpc`. -/
def rpcXml (attributeValue : List Char) (fragment : String) : String :=
  "<rpc xmlns=\"" ++ baseNamespace ++ "\" message-id=\"" ++ String.ofList attributeValue ++ "\">" ++
    fragment ++ "</rpc>"

def buildRpc (operation messageId : String) : Except ClientError String := do
  let messageId ← requireNonEmpty messageId "messageId"
  let fragment ← requireNonEmpty operation "operation"
  let fragment ← assertSafeXml 0 fragment
  if (stripRpcElement (fragment.toList.dropWhile isWhiteSpace)).isSome then
    .error ⟨.type, "operation must be an RPC operation fragment, not an <rpc> envelope", ""⟩
  else return rpcXml (← escapeXmlAttribute messageId.toList) fragment

/-- The template of `text.replace(pattern, template)` with the matched text, which is also the
first group, and the text behind it. Nothing stands before the match. -/
def expandTemplate (matched behind : List Char) : List Char → List Char
  | '$' :: '$' :: rest => '$' :: expandTemplate matched behind rest
  | '$' :: '&' :: rest => matched ++ expandTemplate matched behind rest
  | '$' :: '\x60' :: rest => expandTemplate matched behind rest
  | '$' :: '\'' :: rest => behind ++ expandTemplate matched behind rest
  | '$' :: '0' :: '1' :: rest => matched ++ expandTemplate matched behind rest
  | '$' :: '1' :: rest => matched ++ expandTemplate matched behind rest
  | c :: rest => c :: expandTemplate matched behind rest
  | [] => []

/-- The id is put into the opening tag, behind `rpc`. -/
def insertMessageId (xml messageId : String) : Except ClientError String := do
  let value ← replaceAll [literal "&" "&amp;", literal "\"" "&quot;"] messageId.toList
  match stripRpcElement xml.toList with
  | none => .ok xml
  | some behind =>
    let matched := xml.toList.take (xml.toList.length - behind.length)
    return String.ofList (expandTemplate matched behind
      ("$1 message-id=\"".toList ++ value ++ "\"".toList) ++ behind)

/-- What is sent and the id under which the reply is expected. -/
structure Envelope where
  xml : String
  messageId : String

variable (lib : XmlLibrary)

def ensureRpcEnvelope (operationOrRpc messageId : String) : Except ClientError Envelope := do
  let xml := trimmed (← assertSafeXml 0 operationOrRpc)
  if (stripRpcElement xml.toList).isNone then
    let xml ← buildRpc xml messageId
    let _ ← parseXml lib xml
    return ⟨xml, messageId⟩
  else
    match ← extractRpcMessageId xml with
    | some existingId =>
      if messageId ≠ existingId then
        .error ⟨.type, s!"RPC message-id {existingId} does not match requested message-id " ++
          messageId, ""⟩
      else
        let _ ← parseXml lib xml
        return ⟨xml, existingId⟩
    | none =>
      let xml ← insertMessageId xml messageId
      let _ ← parseXml lib xml
      return ⟨xml, messageId⟩

end Netconf
