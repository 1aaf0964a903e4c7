import ScriptTidy.Http.Reply

/-!
# Requests that nobody handles

Where there is no handler, a request is sent on to the canonical form of its path, and told
that there is nothing once it asks for that form.
-/

namespace ScriptTidy.Http

/-- A text with references in place of the characters that have a meaning in HTML. -/
def escapeHtml (text : Bytes) : Bytes :=
  text.flatMap fun b => match b with
    | 0x26 => utf8 "&amp;"
    | 0x3C => utf8 "&lt;"
    | 0x3E => utf8 "&gt;"
    | 0x22 => utf8 "&#34;"
    | 0x27 => utf8 "&#39;"
    | b => [b]

/-- A text with escapes for the bytes that are not ASCII. -/
def escapeNonAscii (text : Bytes) : Bytes :=
  text.flatMap fun b => if b < 0x80 then [b] else 0x25 :: hexPadded lowerHexDigit 2 b.toNat

namespace Reply

/-- The answer that sends the client to another path, with a page for those who read. -/
def movedPage (method location : Bytes) : List Act :=
  let reads := method = utf8 "GET"
  [.setHeader (utf8 "Location") (escapeNonAscii location)]
    ++ (if reads || method = utf8 "HEAD" then
        [.header "Content-Type" "text/html; charset=utf-8"]
      else [])
    ++ [.status 301]
    ++ (if reads then
        [.write (utf8 "<a href=\"" ++ escapeHtml location
          ++ utf8 "\">Moved Permanently</a>.\n\n")]
      else [])

/-- The answer to a request that is about no path. -/
def noPath : List Act := [.header "Connection" "close", .status 400]

end Reply

/-- How a request is answered that nobody handles. A path is not changed for those who want to
connect, and a query that is empty is left out of the new one. -/
def unhandled (r : Request) : Conduct :=
  let path := Path.canonical r.path
  if r.target = utf8 "*" then { acts := Reply.noPath }
  else if path = r.path || r.method = Request.connect then { acts := Reply.notFound }
  else
    let query := if r.query.isEmpty then none else some r.query
    { acts := Reply.movedPage r.method ({ path, query } : Url.Reference).text }

end ScriptTidy.Http
