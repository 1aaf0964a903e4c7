import ScriptTidy.Text.IpAddress
import ScriptTidy.Text.Path
import ScriptTidy.Text.Quoted

/-!
# References by URL

A reference is an absolute URL, which starts with a scheme and a colon, or a path. This module
reads references and says what is wrong with those that cannot be read. A percent sign starts
an escape: two hexadecimal digits that stand for a byte.
-/

namespace ScriptTidy.Url

/-- Why a text is no reference. -/
inductive Fault
  | controlCharacter
  | missingScheme
  | colonInPath
  | badEscape (escape : Bytes)
  | badAuthority
  /-- The text is neither an absolute URL nor a rooted path, and one of them is needed. -/
  | notRooted
deriving DecidableEq, Repr

/-- The fault in words. -/
def Fault.message : Fault → Bytes
  | controlCharacter => utf8 "net/url: invalid control character in URL"
  | missingScheme => utf8 "missing protocol scheme"
  | colonInPath => utf8 "first path segment in URL cannot contain colon"
  | badEscape escape => utf8 "invalid URL escape " ++ Quoted.quote escape
  | badAuthority => utf8 "invalid host"
  | notRooted => utf8 "invalid URI for request"

/-- Who and where, between two slashes and the path. All parts are without escapes. -/
structure Authority where
  user : Option Bytes := none
  /-- What follows the colon after the user. -/
  password : Option Bytes := none
  /-- The host with its port; may be empty. -/
  host : Bytes := []
deriving DecidableEq, Repr

/-- A reference in its parts. -/
structure Reference where
  /-- What stands before the colon, in lower case; empty for a path. -/
  scheme : Bytes := []
  /-- What stands after the colon if that is no path, as it is written. -/
  bare : Bytes := []
  authority : Option Authority := none
  /-- The path without escapes. -/
  path : Bytes := []
  /-- What stands after the first question mark, as it is written. -/
  query : Option Bytes := none
  /-- What stands after the first hash, as it is written. -/
  fragment : Bytes := []
deriving DecidableEq, Repr

/-- Whether the byte is an ASCII letter. -/
def isLetter (b : UInt8) : Bool := (0x41 ≤ b && b ≤ 0x5A) || (0x61 ≤ b && b ≤ 0x7A)

/-- Whether the byte may stand in a scheme after a letter. -/
def isSchemeByte (b : UInt8) : Bool := isLetter b || isDigitByte b || (utf8 "+-.").elem b

/-- The scheme of a text and what follows its colon; the scheme is empty if there is none. -/
def splitScheme (text : Bytes) : Except Fault (Bytes × Bytes) :=
  let name := text.takeWhile isSchemeByte
  match text.drop name.length with
  | 0x3A :: rest =>
    if name.isEmpty then .error .missingScheme
    else if name.head?.any isLetter then .ok (Bytes.toLowerAscii name, rest)
    else .ok ([], text)
  | _ => .ok ([], text)

/-- The text before the first `sep`, and the text after it if there is one. -/
def cutAt (sep : UInt8) (text : Bytes) : Bytes × Option Bytes :=
  let front := text.takeWhile (· != sep)
  match text.drop front.length with
  | [] => (front, none)
  | _ :: rest => (front, some rest)

/-- The value of a hexadecimal digit. -/
def hexDigit? (b : UInt8) : Option Nat := hexValue? (Char.ofNat b.toNat)

/-- The bytes that a text with escapes stands for. -/
def unescape : Bytes → Except Fault Bytes
  | [] => .ok []
  | 0x25 :: rest =>
    match rest with
    | a :: b :: after =>
      match hexDigit? a, hexDigit? b with
      | some x, some y => (unescape after).map ((x * 16 + y).toUInt8 :: ·)
      | _, _ => .error (.badEscape [0x25, a, b])
    | short => .error (.badEscape (0x25 :: short))
  | b :: rest => (unescape rest).map (b :: ·)

/-- Whether the byte needs no escape wherever it stands. -/
def isUnreserved (b : UInt8) : Bool := isLetter b || isDigitByte b || (utf8 "-_.~").elem b

/-- Whether the byte needs no escape in a path. -/
def isPathByte (b : UInt8) : Bool := isUnreserved b || (utf8 "$&+,/:;=@").elem b

/-- Whether the byte needs no escape in a fragment. -/
def isFragmentByte (b : UInt8) : Bool := isUnreserved b || (utf8 "$&+,/:;=?@!()*").elem b

/-- The text with escapes for all bytes that need them. -/
def escape (isPlain : UInt8 → Bool) (text : Bytes) : Bytes :=
  text.flatMap fun b => if isPlain b then [b] else 0x25 :: hexPadded upperHexDigit 2 b.toNat

/-- Whether a text is empty or a colon and decimal digits. -/
def isPort : Bytes → Bool
  | [] => true
  | b :: digits => b == 0x3A && digits.all isDigitByte

/-- Whether the byte may stand in a host as it is, if it is an ASCII byte. -/
def isHostByte (b : UInt8) : Bool := isUnreserved b || (utf8 "!$&'()*+,;=:[]<>\"").elem b

/-- The bytes that a host with escapes stands for, if it is well formed. Only bytes that
`mayBeEscaped` may be escaped. -/
def unescapeHost? (mayBeEscaped : UInt8 → Bool) : Bytes → Option Bytes
  | [] => some []
  | 0x25 :: a :: b :: rest =>
    match hexDigit? a, hexDigit? b with
    | some x, some y =>
      let byte := (x * 16 + y).toUInt8
      if mayBeEscaped byte then (unescapeHost? mayBeEscaped rest).map (byte :: ·) else none
    | _, _ => none
  | b :: rest =>
    if 0x80 ≤ b || isHostByte b then (unescapeHost? mayBeEscaped rest).map (b :: ·) else none

/-- The text up to the last `sep`, and the text after it. -/
def cutAtLast? (sep : UInt8) (text : Bytes) : Option (Bytes × Bytes) :=
  if text.elem sep then
    let back := (text.reverse.takeWhile (· != sep)).reverse
    some (text.take (text.length - back.length - 1), back)
  else none

/-- Reads the name of a host. Of ASCII bytes only the percent sign may be escaped. -/
def readHostName? (name : Bytes) : Option Bytes :=
  unescapeHost? (fun b => 0x80 ≤ b || b == 0x25) name

/-- Reads the zone of an address, from the escaped percent sign on. What may stand in it may
also be escaped, and so may a blank. -/
def readZone? (zone : Bytes) : Option Bytes :=
  unescapeHost? (fun b => isHostByte b || b == 0x25 || b == 0x20) zone

/-- The text before the first escaped percent sign, and the text from there on. -/
def cutAtZone : Bytes → Bytes × Bytes
  | [] => ([], [])
  | b :: rest =>
    if (utf8 "%25").isPrefixOf (b :: rest) then ([], b :: rest)
    else
      let (address, zone) := cutAtZone rest
      (b :: address, zone)

/-- Reads an address that stands in brackets. It has to be one of version six. -/
def readBracketed? (text : Bytes) : Option Bytes :=
  let (address, zone) := cutAtZone text
  match readHostName? address, readZone? zone with
  | some a, some z => if IpAddress.isV6 (a ++ z) then some (a ++ z) else none
  | _, _ => none

/-- Reads the host of a URL with its port. An opening bracket stands only at its start. -/
def readHost? (host : Bytes) : Option Bytes :=
  if host.elem 0x5B then
    match cutAtLast? 0x5B host with
    | some ([], inner) =>
      match cutAtLast? 0x5D inner with
      | some (text, port) =>
        if isPort port then
          (readBracketed? text).map fun a => [0x5B] ++ a ++ [0x5D] ++ port
        else none
      | none => none
    | _ => none
  else
    let port := match cutAtLast? 0x3A host with
      | some (_, digits) => digits
      | none => []
    if port.all isDigitByte then readHostName? host else none

/-- Whether a text can be the user in front of a host. -/
def isUser (user : Bytes) : Bool :=
  user.all fun b => isUnreserved b || (utf8 ":!$&'()*+,;=%@").elem b

/-- Reads what stands between two slashes and the path. -/
def readAuthority (text : Bytes) : Except Fault Authority :=
  let (user, hostText) := match cutAtLast? 0x40 text with
    | some (user, host) => (some user, host)
    | none => (none, text)
  match readHost? hostText, user with
  | none, _ => .error .badAuthority
  | some host, none => .ok { host }
  | some host, some user =>
    if !isUser user then .error .badAuthority
    else
      let (name, password) := cutAt 0x3A user
      match unescape name, (password.map unescape) with
      | .ok name, none => .ok { user := some name, host }
      | .ok name, some (.ok password) => .ok { user := some name, password := some password, host }
      | _, _ => .error .badAuthority

/-- Reads the part of a reference after its scheme. With `rooted` a path has to be rooted, and
two slashes at the start of a path have no meaning. -/
def readBody (rooted : Bool) (r : Reference) (body : Bytes) : Except Fault Reference :=
  let onPath := fun (r : Reference) (p : Bytes) => (unescape p).map fun path => { r with path }
  match body with
  | 0x2F :: 0x2F :: rest =>
    if r.scheme.isEmpty && (rooted || rest.head? == some 0x2F) then onPath r body
    else
      let authority := rest.takeWhile (· != 0x2F)
      match readAuthority authority with
      | .error f => .error f
      | .ok a => onPath { r with authority := some a } (rest.drop authority.length)
  | 0x2F :: _ => onPath r body
  | _ =>
    if !r.scheme.isEmpty then .ok { r with bare := body, authority := some {} }
    else if rooted then .error .notRooted
    else if (body.takeWhile (· != 0x2F)).elem 0x3A then .error .colonInPath
    else onPath r body

/-- Reads a reference that has no fragment. -/
def readWhole (rooted : Bool) (text : Bytes) : Except Fault Reference :=
  if text.any fun b => b < 0x20 || b == 0x7F then .error .controlCharacter
  else if text = utf8 "*" then .ok { path := text }
  else match splitScheme text with
    | .error f => .error f
    | .ok (scheme, rest) =>
      let (body, query) := cutAt 0x3F rest
      readBody rooted { scheme, query } body

/-- Reads a reference. If it cannot be read, the part that cannot comes with the fault. -/
def read (text : Bytes) : Except (Bytes × Fault) Reference :=
  let (front, fragment) := cutAt 0x23 text
  match readWhole false front with
  | .error f => .error (front, f)
  | .ok r =>
    let fragment := fragment.getD []
    match unescape fragment with
    | .error f => .error (text, f)
    | .ok _ => .ok { r with fragment }

/-- The message for a reference that cannot be read. -/
def faultMessage (part : Bytes) (f : Fault) : Bytes :=
  utf8 "parse " ++ Quoted.quote part ++ utf8 ": " ++ f.message

/-- Whether the text is an absolute URL. -/
def isAbsolute (text : Bytes) : Bool :=
  match read text with
  | .ok r => !r.scheme.isEmpty
  | .error _ => false

/-- A fragment with escapes where they are needed. A fragment in which nothing else needs one
is kept as it is written. -/
def writeFragment (fragment : Bytes) : Bytes :=
  if fragment.all fun b => isFragmentByte b || (utf8 "'[]%").elem b then fragment
  else escape isFragmentByte ((unescape fragment).toOption.getD fragment)

/-- The text of an authority. -/
def Authority.text (a : Authority) : Bytes :=
  let part := escape fun b => isUnreserved b || (utf8 "$&+,;=").elem b
  (match a.user with
    | none => []
    | some name => part name
      ++ (match a.password with
        | none => []
        | some password => 0x3A :: part password)
      ++ [0x40])
    ++ escape isHostByte a.host

/-- A path with escapes where they are needed. A single star stands for itself. -/
def writePath (path : Bytes) : Bytes := if path = utf8 "*" then path else escape isPathByte path

/-- The text of a reference that has a scheme or a rooted path. An empty authority is left out
where nothing follows it. -/
def Reference.text (r : Reference) : Bytes :=
  (if r.scheme.isEmpty then [] else r.scheme ++ [0x3A])
    ++ (if !r.bare.isEmpty then r.bare
      else
        (match r.authority with
          | none => []
          | some a =>
            if a.host.isEmpty && a.user.isNone && (r.scheme.isEmpty || r.path.isEmpty) then []
            else utf8 "//" ++ a.text)
          ++ writePath r.path)
    ++ (match r.query with
      | some q => 0x3F :: q
      | none => [])
    ++ (if r.fragment.isEmpty then [] else 0x23 :: writeFragment r.fragment)

end ScriptTidy.Url
